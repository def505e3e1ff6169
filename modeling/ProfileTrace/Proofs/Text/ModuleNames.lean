import ProfileTrace.Frame.Line
import ProfileTrace.Proofs.Text.Words

/-! Names of modules. A name is taken from a column in two steps that are each made once, first
the brackets around the column and then the directories in front of the name, so that brackets
around the last part of a path stay. -/

namespace ProfileTrace
namespace Text

def moduleName (column : String) : String := baseName (unwrap column)

@[simp] theorem toList_moduleName (column : String) :
    (moduleName column).toList = baseNameChars (unwrapChars column.toList) := by
  rw [moduleName, toList_baseName, toList_unwrap]

theorem moduleName_ofList (chars : List Char) :
    moduleName (String.ofList chars) = baseName (String.ofList (unwrapChars chars)) := by
  rw [moduleName, unwrap, String.toList_ofList]

def EndsWrapped (path : List Char) : Prop :=
  ∃ directory part, path = directory ++ '/' :: part ∧ '/' ∉ part ∧ isWrapped part = true

theorem EndsWrapped.isWrapped_baseNameChars {path : List Char} (ends : EndsWrapped path) :
    isWrapped (baseNameChars path) = true := by
  obtain ⟨directory, part, rfl, plain, wrapped⟩ := ends
  have nonempty : part ≠ [] := by
    rintro rfl
    exact Bool.false_ne_true wrapped
  rwa [baseNameChars_append_slash directory plain nonempty]

/-- Only brackets around the last part can be around the name of a path that is itself bare. -/
theorem isWrapped_baseNameChars_iff {path : List Char} (bare : isWrapped path = false) :
    isWrapped (baseNameChars path) = true ↔ EndsWrapped path := by
  refine ⟨fun wrapped => ?_, EndsWrapped.isWrapped_baseNameChars⟩
  obtain plain | ⟨directory, rfl⟩ | ⟨directory, part, rfl, plain, nonempty⟩ := path_cases path
  · rw [baseNameChars_of_not_mem plain, bare] at wrapped
    contradiction
  · rw [baseNameChars_concat_slash, bare] at wrapped
    contradiction
  · rw [baseNameChars_append_slash directory plain nonempty] at wrapped
    exact ⟨directory, part, rfl, plain, wrapped⟩

theorem exists_concat_slash {path : List Char} (inside : '/' ∈ baseNameChars path) :
    ∃ directory, path = directory ++ ['/'] := by
  obtain plain | ends | ⟨directory, part, rfl, plain, nonempty⟩ := path_cases path
  · exact absurd (baseNameChars_of_not_mem plain ▸ inside) plain
  · exact ends
  · exact absurd (baseNameChars_append_slash directory plain nonempty ▸ inside) plain

theorem getLast?_baseNameChars {path : List Char} (inside : '/' ∈ baseNameChars path) :
    (baseNameChars path).getLast? = some '/' := by
  obtain ⟨directory, rfl⟩ := exists_concat_slash inside
  rw [baseNameChars_concat_slash, List.getLast?_concat]

theorem baseNameChars_unwrapChars_baseNameChars {path : List Char}
    (bare : isWrapped path = false) :
    baseNameChars (unwrapChars (baseNameChars path)) = unwrapChars (baseNameChars path) := by
  by_cases inside : '/' ∈ baseNameChars path
  · obtain ⟨directory, rfl⟩ := exists_concat_slash inside
    have whole := baseNameChars_concat_slash directory
    rw [whole, unwrapChars_eq_self_iff.mpr bare, whole]
  · exact baseNameChars_of_not_mem fun among =>
      inside ((unwraps_unwrapChars _).subset among)

/-- A second extraction takes off the brackets that are around a name, and nothing else. -/
theorem moduleName_moduleName (column : String) :
    moduleName (moduleName column) = unwrap (moduleName column) := by
  have bare := (unwraps_unwrapChars column.toList).isWrapped_eq_false
  rw [← String.toList_inj, toList_moduleName, toList_unwrap, toList_moduleName,
    baseNameChars_unwrapChars_baseNameChars bare]

theorem isWrapped_moduleName_iff (column : String) :
    isWrapped (moduleName column).toList = true ↔ EndsWrapped (unwrap column).toList := by
  rw [toList_moduleName, toList_unwrap]
  exact isWrapped_baseNameChars_iff (unwraps_unwrapChars column.toList).isWrapped_eq_false

end Text

open Text

namespace FrameLine

/-- What the name of a line's module is taken from: the column of the module, or the first
bracketed word of the symbol when the column holds a symbol map. -/
def moduleText (symbol column : String) : String :=
  if hasSuffix (unwrap (trim column)) ".map" then
    match (pieces ' ' symbol.toList).find? isBracketedToken with
    | some token => String.ofList (trimChars token)
    | none => trim column
  else trim column

theorem codeFrame_eq (address symbol column : String) :
    ∃ name, codeFrame address symbol column =
      .code address (moduleName (moduleText symbol column)) name := by
  rw [codeFrame, moduleText]
  simp only
  split
  next fromMap =>
    rw [splitMapSymbol, List.find?_eq_head?_dropWhile_not]
    cases (pieces ' ' symbol.toList).dropWhile fun token => !isBracketedToken token with
    | nil => exact ⟨_, rfl⟩
    | cons token following =>
      simp only [List.head?_cons, moduleName_ofList]
      exact ⟨_, rfl⟩
  next => exact ⟨_, rfl⟩

end FrameLine

/-- Every module of a frame line is named by the same extraction. Made again, it takes off the
brackets around the name: it changes nothing just when the text, without the brackets around it,
does not end in a path whose last part is in brackets. No directory is left in a name that does
not end in a slash, and a third extraction never changes anything. -/
theorem moduleName_fixed_iff (address symbol column text : String) :
    (∃ name, FrameLine.codeFrame address symbol column =
      .code address (moduleName (FrameLine.moduleText symbol column)) name) ∧
    (moduleName (moduleName text) = moduleName text ↔ ¬EndsWrapped (unwrap text).toList) ∧
    (isWrapped (moduleName text).toList = true ↔ EndsWrapped (unwrap text).toList) ∧
    ('/' ∈ (moduleName text).toList → (moduleName text).toList.getLast? = some '/') ∧
    moduleName (moduleName text) = unwrap (moduleName text) ∧
    moduleName (moduleName (moduleName text)) = moduleName (moduleName text) := by
  refine ⟨FrameLine.codeFrame_eq address symbol column, ?_, isWrapped_moduleName_iff text, ?_,
    moduleName_moduleName text, ?_⟩
  · rw [moduleName_moduleName, ← String.toList_inj, toList_unwrap, unwrapChars_eq_self_iff,
      ← isWrapped_moduleName_iff, Bool.not_eq_true]
  · rw [toList_moduleName]
    exact getLast?_baseNameChars
  · have bare := (unwraps_unwrapChars (moduleName text).toList).isWrapped_eq_false
    rw [moduleName_moduleName (moduleName text), moduleName_moduleName text,
      ← String.toList_inj, toList_unwrap, toList_unwrap, unwrapChars_eq_self_iff.mpr bare]

example : moduleName "(/usr/lib/[vdso])" = "[vdso]" ∧ moduleName "[vdso]" = "vdso" := by
  cbv

end ProfileTrace
