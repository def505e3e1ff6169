/-! The arguments of the program: an input, a filter, and options. Options may stand
anywhere before a double hyphen, one-letter ones also grouped and with their value
attached. A value is checked when the next argument begins or the last one has ended, so
that of two mistakes an unknown argument is told first. -/

namespace ProfileTrace

structure Arguments where
  input : String
  filter : Option String := none
  threadTime : Bool := false
  workers : Nat := 4
  windowLength : Nat := 16384
  maxSamples : Option Nat := none
  exportFile : Option String := none
  quiet : Bool := false
  deriving DecidableEq, Repr

inductive UsageError where
  | missingRequiredArgument
  | unknownArgument
  | invalidValue
  | valueValidation
  | argumentConflict
  | tooManyValues
  | displayHelp
  deriving DecidableEq, Repr

namespace Arguments

inductive Slot where
  | input
  | filter
  | workers
  | windowLength
  | maxSamples
  | exportFile
  deriving DecidableEq, Repr

inductive Switch where
  | threadTime
  | quiet
  | help
  deriving DecidableEq, Repr

inductive Meaning where
  | slot (slot : Slot)
  | switch (switch : Switch)

def longMeaning? : String → Option Meaning
  | "workers" => some (.slot .workers)
  | "buffer-len" => some (.slot .windowLength)
  | "max-samples" => some (.slot .maxSamples)
  | "export" => some (.slot .exportFile)
  | "thread-time" => some (.switch .threadTime)
  | "quiet" => some (.switch .quiet)
  | "help" => some (.switch .help)
  | _ => none

def shortMeaning? : Char → Option Meaning
  | 'w' => some (.slot .workers)
  | 'q' => some (.switch .quiet)
  | 'h' => some (.switch .help)
  | _ => none

structure Given where
  input : Option String := none
  filter : Option String := none
  workers : Option Nat := none
  windowLength : Option Nat := none
  maxSamples : Option Nat := none
  exportFile : Option String := none
  threadTime : Bool := false
  quiet : Bool := false
  /-- A slot whose value is not checked yet, and the value unless it is still to come. -/
  pending : Option (Slot × Option String) := none
  /-- How many arguments stood for themselves. -/
  positions : Nat := 0
  /-- After a double hyphen all arguments stand for themselves. -/
  literal : Bool := false

/-- A number below two to the power of 64, with an optional plus sign. -/
def number? (text : String) : Option Nat :=
  let digits :=
    match text.toList with
    | '+' :: rest => rest
    | chars => chars
  if digits.isEmpty || !digits.all Char.isDigit then none
  else
    let value := digits.foldl (fun value c => value * 10 + (c.toNat - '0'.toNat)) 0
    if value < 0x10000000000000000 then some value else none

def readNumber (text : String) : Except UsageError Nat :=
  match number? text with
  | some value => .ok value
  | none => .error .valueValidation

def readPath (text : String) : Except UsageError String :=
  if text.isEmpty then .error .invalidValue else .ok text

def keep {α : Type} (before : Option α) (read : String → Except UsageError α)
    (text : String) : Except UsageError (Option α) :=
  match before with
  | some _ => .error .argumentConflict
  | none => some <$> read text

def store (given : Given) (slot : Slot) (text : String) : Except UsageError Given := do
  match slot with
  | .input => return { given with input := ← keep given.input readPath text }
  | .filter => return { given with filter := ← keep given.filter .ok text }
  | .workers => return { given with workers := ← keep given.workers readNumber text }
  | .windowLength =>
      return { given with windowLength := ← keep given.windowLength readNumber text }
  | .maxSamples => return { given with maxSamples := ← keep given.maxSamples readNumber text }
  | .exportFile => return { given with exportFile := ← keep given.exportFile readPath text }

/-- Checks and keeps the pending value; one that has not come is missing. -/
def settle (given : Given) : Except UsageError Given :=
  match given.pending with
  | none => .ok given
  | some (_, none) => .error .invalidValue
  | some (slot, some text) => store { given with pending := none } slot text

def turnOn (given : Given) (switch : Switch) : Except UsageError Given := do
  let given ← settle given
  match switch with
  | .help => .error .displayHelp
  | .threadTime =>
      if given.threadTime then .error .argumentConflict else .ok { given with threadTime := true }
  | .quiet => if given.quiet then .error .argumentConflict else .ok { given with quiet := true }

/-- Takes an option's value: the attached one at once, or else the next argument. -/
def takeValue (given : Given) (slot : Slot) (attached : Option String) :
    Except UsageError Given := do
  let given ← settle given
  match attached with
  | some text => store given slot text
  | none => return { given with pending := some (slot, none) }

def takeLong (given : Given) (option : String) : Except UsageError Given :=
  let (name, rest) := option.toList.span (· != '=')
  let attached := rest.tail?.map String.ofList
  match longMeaning? (String.ofList name) with
  | none => .error .unknownArgument
  | some (.slot slot) => takeValue given slot attached
  | some (.switch switch) =>
      if attached.isSome then .error .tooManyValues else turnOn given switch

/-- Options by their letters; one that takes a value takes the letters after it. -/
def takeShort (given : Given) : List Char → Except UsageError Given
  | [] => .ok given
  | c :: rest =>
      match shortMeaning? c with
      | none => .error .unknownArgument
      | some (.switch switch) => do takeShort (← turnOn given switch) rest
      | some (.slot slot) =>
          let attached :=
            match rest with
            | [] => none
            | '=' :: value => some (String.ofList value)
            | value => some (String.ofList value)
          takeValue given slot attached

def takePosition (given : Given) (text : String) : Except UsageError Given := do
  let slot ←
    match given.positions with
    | 0 => .ok Slot.input
    | 1 => .ok Slot.filter
    | _ => .error .unknownArgument
  let given ← settle given
  return { given with pending := some (slot, some text), positions := given.positions + 1 }

def take (given : Given) (text : String) : Except UsageError Given :=
  if given.literal then takePosition given text
  else
    match text.toList with
    | ['-', '-'] => .ok { given with literal := true }
    | '-' :: '-' :: option => takeLong given (String.ofList option)
    | '-' :: c :: letters => takeShort given (c :: letters)
    | _ =>
        match given.pending with
        | some (slot, none) => .ok { given with pending := some (slot, some text) }
        | _ => takePosition given text

def read (texts : List String) : Except UsageError Arguments := do
  let given ← settle (← texts.foldlM take {})
  match given.input with
  | none => .error .missingRequiredArgument
  | some input =>
      let defaults : Arguments := { input }
      return {
        input
        filter := given.filter
        threadTime := given.threadTime
        workers := given.workers.getD defaults.workers
        windowLength := given.windowLength.getD defaults.windowLength
        maxSamples := given.maxSamples
        exportFile := given.exportFile
        quiet := given.quiet }

/-- Where the document goes: next to the input unless a file is given. -/
def exportPath (arguments : Arguments) : String :=
  arguments.exportFile.getD (arguments.input ++ ".stacks.json")

end Arguments

end ProfileTrace
