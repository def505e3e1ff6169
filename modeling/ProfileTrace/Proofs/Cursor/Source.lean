import ProfileTrace.Reader

/-! Sources that never fail. However slowly such a source delivers, what it brings are its
own bytes in their order, and it says that it has ended only when it has. -/

namespace ProfileTrace.Reader

def content (reader : Reader) : List UInt8 := reader.bytes.data.toList

def ahead (reader : Reader) : List UInt8 := reader.content.drop reader.start

/-- A source that never fails, and each of whose reads brings something until it has ended. -/
structure Faultless (reader : Reader) : Prop where
  noFailure : reader.failsFrom = none
  canTell : reader.canTell = true
  delivers : ∀ turn, (reader.pace turn).most ≠ some 0

theorem faultless_ofBytes (bytes : ByteArray) : (ofBytes bytes).Faultless where
  noFailure := rfl
  canTell := rfl
  delivers _ := by
    intro none
    cases none

def slow (bytes : List UInt8) (start : Nat) : Reader where
  bytes := ⟨bytes.toArray⟩
  start := start
  pace _ := { interruptions := 1, most := some 1 }

theorem most_slow (bytes : List UInt8) (start turn : Nat) :
    ((slow bytes start).pace turn).most ≠ some 0 :=
  fun none => Nat.one_ne_zero (Option.some.inj none)

theorem faultless_slow (bytes : List UInt8) (start : Nat) : (slow bytes start).Faultless where
  noFailure := rfl
  canTell := rfl
  delivers := most_slow bytes start

variable {reader : Reader} {offset need space : Nat}

theorem Faultless.read (calm : reader.Faultless) (offset space : Nat) :
    (reader.read offset space).2.Faultless := by
  unfold Reader.read
  split
  · exact ⟨calm.noFailure, calm.canTell, calm.delivers⟩
  · split
    · exact ⟨calm.noFailure, calm.canTell, calm.delivers⟩
    · exact ⟨calm.noFailure, calm.canTell, calm.delivers⟩

theorem Faultless.fst_read_ne_failed (calm : reader.Faultless) :
    (reader.read offset space).1 ≠ .failed := by
  intro failed
  unfold Reader.read at failed
  split at failed
  · cases failed
  · simp [calm.noFailure] at failed

theorem Faultless.delivered (calm : reader.Faultless) {after : Reader} {bytes : List UInt8}
    (room : 0 < space) (found : reader.read offset space = (.delivered bytes, after)) :
    ∃ count, 0 < count ∧ bytes = (reader.content.drop offset).take count := by
  unfold Reader.read at found
  split at found
  · simp at found
  · simp only [calm.noFailure, Option.any_none, Bool.false_eq_true, if_false, Option.map_none,
      Option.getD_none, Prod.mk.injEq, Outcome.delivered.injEq] at found
    refine ⟨_, ?_, found.1.symm.trans (slice_eq ..)⟩
    cases allowed : (reader.pace reader.turn).most with
    | none => exact room
    | some most =>
      have positive : most ≠ 0 := fun zero => calm.delivers _ (by rw [allowed, zero])
      simp only [Option.map_some, Option.getD_some]
      omega

/-- What a run of reads brings: the next bytes, as many as are needed unless they are all. -/
structure Delivers (reader : Reader) (offset need : Nat) (delivery : Delivery) : Prop where
  noFailure : delivery.failed = false
  calm : delivery.reader.Faultless
  part : delivery.bytes <+: reader.content.drop offset
  enough : delivery.ended = false → need ≤ delivery.bytes.length
  all : delivery.ended = true → delivery.bytes = reader.content.drop offset

theorem Faultless.delivers_gather (calm : reader.Faultless) (fits : need ≤ space) :
    Delivers reader offset need (reader.gather offset need space) := by
  fun_induction gather reader offset need space with
  | case1 reader offset space =>
    exact ⟨rfl, calm, List.nil_prefix, fun _ => Nat.le_refl 0, by simp⟩
  | case2 reader offset need space some after found ih =>
    have same := bytes_read reader offset space
    have next := calm.read offset space
    rw [found] at same next
    have more := ih next fits
    have content : after.content = reader.content := congrArg (fun bytes => bytes.data.toList) same
    exact ⟨more.noFailure, more.calm, content ▸ more.part, more.enough, content ▸ more.all⟩
  | case3 reader offset need space some after found =>
    exact absurd (congrArg Prod.fst found) calm.fst_read_ne_failed
  | case4 reader offset need space some bytes after found empty =>
    have next := calm.read offset space
    rw [found] at next
    obtain ⟨count, positive, taken⟩ := calm.delivered (by omega) found
    -- nothing was read although there was space, so that nothing is left
    have none : reader.content.drop offset = [] := by
      rw [taken] at empty
      rcases List.take_eq_nil_iff.mp (List.length_eq_zero_iff.mp empty) with zero | none
      · omega
      · exact none
    exact ⟨rfl, next, List.nil_prefix, by simp, fun _ => none.symm⟩
  | case5 reader offset need space some bytes after found nonempty more ih =>
    have same := bytes_read reader offset space
    have next := calm.read offset space
    rw [found] at same next
    have content : after.content = reader.content := congrArg (fun bytes => bytes.data.toList) same
    have rest : Delivers after (offset + bytes.length) (need - bytes.length) more :=
      ih next (by omega)
    obtain ⟨count, positive, taken⟩ := calm.delivered (by omega) found
    have whole : reader.content.drop offset =
        bytes ++ after.content.drop (offset + bytes.length) := by
      have part : bytes <+: reader.content.drop offset := taken ▸ List.take_prefix _ _
      rw [content, ← List.drop_drop, List.prefix_iff_eq_append.mp part]
    refine ⟨rest.noFailure, rest.calm, ?_, ?_, ?_⟩
    · rw [whole]
      exact List.prefix_append_right_inj bytes |>.mpr rest.part
    · intro more
      have := rest.enough more
      simp only [List.length_append]
      omega
    · intro ended
      rw [whole]
      exact congrArg (bytes ++ ·) (rest.all ended)

theorem ended_gather (reader : Reader) (offset need space : Nat) :
    (reader.gather offset need space).ended =
      decide ((reader.gather offset need space).bytes.length < need) := by
  fun_induction gather reader offset need space with
  | case1 => rfl
  | case2 reader offset need space some after found ih => exact ih
  | case3 reader offset need space some after found =>
    exact (decide_eq_true (Nat.pos_of_ne_zero some)).symm
  | case4 reader offset need space some bytes after found empty =>
    exact (decide_eq_true (Nat.pos_of_ne_zero some)).symm
  | case5 reader offset need space some bytes after found nonempty more ih =>
    have rest : more.ended = decide (more.bytes.length < need - bytes.length) := ih
    rw [List.length_append]
    refine rest.trans (decide_eq_decide.mpr ?_)
    omega

@[simp] theorem canSeek_read (reader : Reader) (offset space : Nat) :
    (reader.read offset space).2.canSeek = reader.canSeek := by
  simp only [read]
  split
  · rfl
  · split <;> rfl

@[simp] theorem canSeek_gather (reader : Reader) (offset need space : Nat) :
    (reader.gather offset need space).reader.canSeek = reader.canSeek := by
  fun_induction gather reader offset need space with
  | case1 => rfl
  | case2 reader offset need space _ after found ih =>
    have same := canSeek_read reader offset space
    rw [found] at same
    rw [ih, same]
  | case3 reader offset need space _ after found =>
    have same := canSeek_read reader offset space
    rwa [found] at same
  | case4 reader offset need space _ bytes after found =>
    have same := canSeek_read reader offset space
    rwa [found] at same
  | case5 reader offset need space _ bytes after found _ more ih =>
    have same := canSeek_read reader offset space
    rw [found] at same
    rw [ih, same]

end ProfileTrace.Reader
