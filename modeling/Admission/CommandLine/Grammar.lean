import Admission.Text.Numeral
import Admission.Text.Quoted

/-!
# Command line grammars

A grammar names the options of a program and what it takes besides them. Words are first told
apart — options, operands, and the `--` that ends the options — and are then taken from the left:
operands as the grammar wants them, each option with its value. A long option may be cut short if
no other starts the same way, and short ones may be joined. What nobody takes is left over; what
to do with it is for the caller to say.
-/
namespace Admission.CommandLine

inductive OptionKind where
  | help
  | flag
  | text
  | number
  deriving DecidableEq, Repr

/-- An option: its spellings, in the order of their declaration, and what it takes. -/
structure OptionSpec where
  spellings : List String
  kind : OptionKind
  deriving DecidableEq, Repr

/-- How messages name an option. -/
def OptionSpec.label (o : OptionSpec) : String := "/".intercalate o.spellings

def OptionSpec.takesValue (o : OptionSpec) : Bool := o.kind == .text || o.kind == .number

/-- The option for help, which every grammar has first. -/
def helpOption : OptionSpec := ⟨["-h", "--help"], .help⟩

/-- What a grammar takes besides options: nothing, one operand, or a command with all the words
after it. -/
inductive Operands where
  | nothing
  | single (name : String)
  | command (name : String) (choices : List String)
  deriving DecidableEq, Repr

/-- A grammar, with its usage line and its help text. -/
structure Grammar where
  program : String
  usage : String
  help : String
  options : List OptionSpec
  operands : Operands
  deriving DecidableEq, Repr

/-- Why a program does not run: its help was asked for, or its use was wrong. -/
inductive Stop where
  | help (text : String)
  | misuse (text : String)
  deriving DecidableEq, Repr

def Grammar.misuse (g : Grammar) (message : String) : Stop :=
  .misuse (g.usage ++ g.program ++ ": error: " ++ message ++ "\n")

def Grammar.optionMisuse (g : Grammar) (o : OptionSpec) (message : String) : Stop :=
  g.misuse ("argument " ++ o.label ++ ": " ++ message)

/-- A spelling with its option, and the value that stands in the same word. -/
structure Candidate where
  option : OptionSpec
  spelling : String
  value : Option String := none
  deriving DecidableEq, Repr

/-- A word as the grammar sees it. -/
inductive Word where
  | dashes
  | operand (word : String)
  | option (word : String) (candidate : Option Candidate)
  deriving DecidableEq, Repr

def Word.text : Word → String
  | .dashes => "--"
  | .operand word | .option word _ => word

def Word.isOption : Word → Bool
  | .option _ _ => true
  | _ => false

def Grammar.spellings (g : Grammar) : List (String × OptionSpec) :=
  g.options.flatMap fun o => o.spellings.map fun s => (s, o)

def Grammar.find? (g : Grammar) (spelling : String) : Option OptionSpec :=
  (g.spellings.find? (·.1 == spelling)).map (·.2)

/-- A word cut at its first equals sign. -/
def cutValue? (word : String) : Option (String × String) :=
  match word.toList.span (· ≠ '=') with
  | (name, _ :: value) => some (String.ofList name, String.ofList value)
  | _ => none

def startsWith (s start : String) : Bool := start.toList.isPrefixOf s.toList

/-- The options that a word may be short for: a long one cut short, or a short one with its value
joined to it. -/
def Grammar.candidates (g : Grammar) (word : String) : List Candidate :=
  match word.toList with
  | '-' :: '-' :: _ =>
    let (name, value) :=
      match cutValue? word with
      | some (name, value) => (name, some value)
      | none => (word, none)
    g.spellings.filterMap fun (s, o) => if startsWith s name then some ⟨o, s, value⟩ else none
  | dash :: letter :: rest =>
    g.spellings.filterMap fun (s, o) =>
      if s = String.ofList [dash, letter] then some ⟨o, s, some (String.ofList rest)⟩
      else if startsWith s word then some ⟨o, s, none⟩
      else none
  | _ => []

/-- Whether a word is a negative number: digits, or a fraction; one line feed at the end does not
count. -/
def isNegativeNumber (word : String) : Bool :=
  let whole (cs : List Char) : Bool := !cs.isEmpty && cs.all Text.isDigit
  let number (cs : List Char) : Bool :=
    match cs with
    | '-' :: cs =>
      whole cs ||
        match cs.dropWhile Text.isDigit with
        | '.' :: fraction => whole fraction
        | _ => false
    | _ => false
  let cs := word.toList
  number cs || (cs.getLast? == some '\n' && number cs.dropLast)

/-- A word before any `--`. -/
def Grammar.word (g : Grammar) (word : String) : Except Stop Word :=
  match word.toList with
  | '-' :: rest =>
    match g.find? word with
    | some o => .ok (.option word (some ⟨o, word, none⟩))
    | none =>
      if rest.isEmpty then .ok (.operand word)
      else
        match (cutValue? word).bind fun (s, value) =>
            (g.find? s).map fun o => (⟨o, s, some value⟩ : Candidate) with
        | some c => .ok (.option word (some c))
        | none =>
          match g.candidates word with
          | [c] => .ok (.option word (some c))
          | [] =>
            if isNegativeNumber word || rest.contains ' ' then .ok (.operand word)
            else .ok (.option word none)
          | more =>
            .error (g.misuse ("ambiguous option: " ++ word ++ " could match " ++
              ", ".intercalate (more.map (·.spelling))))
  | _ => .ok (.operand word)

/-- The words of a command line; after the first `--` all are operands. -/
def Grammar.words (g : Grammar) : List String → Except Stop (List Word)
  | [] => .ok []
  | "--" :: rest => .ok (.dashes :: rest.map .operand)
  | word :: rest => do
    let w ← g.word word
    let ws ← g.words rest
    return w :: ws

inductive OptionValue where
  | flag
  | text (s : String)
  | number (n : Int)
  deriving DecidableEq, Repr

/-- What has been taken from a command line: the values given for options, by first spelling, the
operands once they are there, and the words left over. -/
structure Taken where
  values : List (String × OptionValue) := []
  operands : Option (List String) := none
  leftOver : List String := []
  deriving DecidableEq, Repr

def Taken.value? (t : Taken) (spelling : String) : Option OptionValue :=
  (t.values.reverse.find? (·.1 == spelling)).map (·.2)

/-- An option taken with its value. -/
def Grammar.set (g : Grammar) (t : Taken) (o : OptionSpec) (value : Option String) :
    Except Stop Taken :=
  let put (s : OptionValue) : Except Stop Taken :=
    .ok { t with values := t.values ++ [(o.spellings.headD "", s)] }
  match o.kind, value with
  | .help, _ => .error (.help g.help)
  | .number, some s =>
    match Text.readInt? s with
    | some n => put (.number n)
    | none => .error (g.optionMisuse o ("invalid int value: " ++ Text.quoted s))
  | .text, some s => put (.text s)
  | _, _ => put .flag

/-- The options joined in one word, where `value` is what follows the spelling in it: the options
with the values they have there, and the option that still wants one. -/
def Grammar.joined (g : Grammar) (o : OptionSpec) (single : Bool) :
    List Char → Except Stop (List (OptionSpec × Option String) × Option OptionSpec)
  | [] =>
    .error (g.optionMisuse o ("ignored explicit argument " ++ Text.quoted ""))
  | letter :: rest =>
    let value := String.ofList (letter :: rest)
    if o.takesValue then .ok ([(o, some value)], none)
    else
      let refused := g.optionMisuse o ("ignored explicit argument " ++ Text.quoted value)
      if single then
        match g.find? (String.ofList ['-', letter]), rest with
        | none, _ => .error refused
        | some next, [] =>
          if next.takesValue then .ok ([(o, none)], some next)
          else .ok ([(o, none), (next, none)], none)
        | some next, rest => do
          let (more, wanting) ← g.joined next single rest
          return ((o, none) :: more, wanting)
      else .error refused

/-- The options that one word gives, and the option among them that wants the next word. -/
def Grammar.given (g : Grammar) (c : Candidate) :
    Except Stop (List (OptionSpec × Option String) × Option OptionSpec) :=
  match c.value with
  | none => .ok (if c.option.takesValue then ([], some c.option) else ([(c.option, none)], none))
  | some value =>
    if c.option.takesValue then .ok ([(c.option, some value)], none)
    else g.joined c.option (c.spelling.toList[1]? != some '-') value.toList

/-- An option taken from the front of the words; `rest` are the words behind it. -/
def Grammar.takeOption (g : Grammar) (t : Taken) (word : String) (candidate : Option Candidate)
    (rest : List Word) : Except Stop (Taken × List Word) :=
  match candidate with
  | none => .ok ({ t with leftOver := t.leftOver ++ [word] }, rest)
  | some c => do
    let (given, wanting) ← g.given c
    let (given, rest) ←
      match wanting, rest with
      | none, rest => pure (given, rest)
      | some o, .operand value :: rest => pure (given ++ [(o, some value)], rest)
      | some o, _ => .error (g.optionMisuse o "expected one argument")
    let t ← given.foldlM (fun t (o, value) => g.set t o value) t
    return (t, rest)

/-- The operands at the front of the words, as the grammar wants them, and the words behind. A
single operand takes the `--` beside it along; a command takes all words. -/
def Operands.take? : Operands → List Word → Option (List String × List Word)
  | .nothing, _ => none
  | .single _, .dashes :: .operand word :: rest => some ([word], rest)
  | .single _, .operand word :: .dashes :: rest => some ([word], rest)
  | .single _, .operand word :: rest => some ([word], rest)
  | .single _, _ => none
  | .command _ _, .dashes :: .operand word :: rest =>
    some ("--" :: word :: rest.map Word.text, [])
  | .command _ _, .operand word :: rest => some (word :: rest.map Word.text, [])
  | .command _ _, _ => none

/-- The operands checked: a command has to be one of the choices. -/
def Grammar.checkOperands (g : Grammar) (words : List String) : Except Stop (List String) :=
  match g.operands, words with
  | .command name choices, word :: _ =>
    if choices.contains word then .ok words
    else
      .error (g.misuse ("argument " ++ name ++ ": invalid choice: " ++ Text.quoted word ++
        " (choose from " ++ ", ".intercalate (choices.map Text.quoted) ++ ")"))
  | _, _ => .ok words

/-- The operands taken from the front of the words, if they are still wanted and there. -/
def Grammar.takeOperands (g : Grammar) (t : Taken) (ws : List Word) :
    Except Stop (Option (Taken × List Word)) :=
  match t.operands, g.operands.take? ws with
  | none, some (words, rest) => do
    let words ← g.checkOperands words
    return some ({ t with operands := some words }, rest)
  | _, _ => return none

/-- Everything taken from the words. The fuel is the number of words and one more. -/
def Grammar.takeAll (g : Grammar) : Nat → Taken → List Word → Except Stop Taken
  | 0, t, _ => .ok t
  | fuel + 1, t, ws =>
    match ws with
    | .option word candidate :: rest => do
      let (t, rest) ← g.takeOption t word candidate rest
      g.takeAll fuel t rest
    | ws => do
      match ← g.takeOperands t ws with
      | some (t, rest) => g.takeAll fuel t rest
      | none =>
        let (more, rest) := ws.span fun w => !w.isOption
        let t := { t with leftOver := t.leftOver ++ more.map Word.text }
        if rest.isEmpty then return t else g.takeAll fuel t rest

/-- What messages call the operands of a grammar. -/
def Operands.name? : Operands → Option String
  | .nothing => none
  | .single name | .command name _ => some name

/-- A command line taken apart. The operands have to be there. -/
def Grammar.parse (g : Grammar) (line : List String) : Except Stop Taken := do
  let ws ← g.words line
  let t ← g.takeAll (ws.length + 1) {} ws
  match t.operands, g.operands.name? with
  | none, some name =>
    .error (g.misuse ("the following arguments are required: " ++ name))
  | _, _ => return t

/-- A wrong use because of words that nobody took, if there are any. -/
def Grammar.checkLeftOver (g : Grammar) (words : List String) : Except Stop Unit :=
  if words.isEmpty then .ok ()
  else .error (g.misuse ("unrecognized arguments: " ++ " ".intercalate words))

end Admission.CommandLine
