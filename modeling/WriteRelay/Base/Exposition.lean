import Mathlib

/-! A text format for measurements: a line for every sample, with a name, quoted labels and a
value, and comment lines that declare the help text and the kind of a name. The reader is an
automaton over the characters; a sample has what the lines above it declare for its name. -/
namespace Exposition

structure Sample where
  name : List Char
  labels : List (List Char × List Char)
  value : List Char
  deriving DecidableEq

inductive Line
  | help (name text : List Char)
  | kind (name type : List Char)
  | sample (s : Sample)
  deriving DecidableEq

structure Exposed where
  sample : Sample
  help : Option (List Char)
  kind : Option (List Char)
  deriving DecidableEq

section Writing

def escapeChar (c : Char) : List Char :=
  if c = '\\' then ['\\', '\\'] else if c = '\n' then ['\\', 'n'] else if c = '"' then ['\\', '"'] else [c]

def quoted (value : List Char) : List Char := '"' :: (value.flatMap escapeChar ++ ['"'])

def writeLabel (label : List Char × List Char) : List Char := label.1 ++ '=' :: quoted label.2

def writeLabels : List (List Char × List Char) → List Char
  | [] => []
  | label :: rest =>
    '{' :: (writeLabel label ++ (rest.flatMap fun label => ',' :: writeLabel label) ++ ['}'])

def Line.write : Line → List Char
  | .help name text => '#' :: (" HELP ".toList ++ name ++ ' ' :: text) ++ ['\n']
  | .kind name type => '#' :: (" TYPE ".toList ++ name ++ ' ' :: type) ++ ['\n']
  | .sample s => s.name ++ writeLabels s.labels ++ ' ' :: s.value ++ ['\n']

def write (lines : List Line) : List Char := lines.flatMap Line.write

end Writing

section Reading

def unescape : List Char → List Char
  | [] => []
  | '\\' :: '\\' :: rest => '\\' :: unescape rest
  | '\\' :: 'n' :: rest => '\n' :: unescape rest
  | c :: rest => c :: unescape rest

def splitName (text : List Char) : List Char × List Char :=
  (text.takeWhile (· ≠ ' '), (text.dropWhile (· ≠ ' ')).tail)

/-- What a comment declares. -/
def declaration (text : List Char) : List Line :=
  if " HELP ".toList.isPrefixOf text then
    let (name, help) := splitName (text.drop 6)
    [.help name (unescape help)]
  else if " TYPE ".toList.isPrefixOf text then
    let (name, type) := splitName (text.drop 6)
    [.kind name type]
  else []

/-- What the reader holds of the line it is in. -/
inductive State
  | start
  | comment (text : List Char)
  | name (name : List Char)
  | key (name : List Char) (labels : List (List Char × List Char)) (key : List Char)
  | quote (name : List Char) (labels : List (List Char × List Char)) (key : List Char)
  | text (name : List Char) (labels : List (List Char × List Char)) (key value : List Char)
  | escaped (name : List Char) (labels : List (List Char × List Char)) (key value : List Char)
  | closed (name : List Char) (labels : List (List Char × List Char))
  | braced (name : List Char) (labels : List (List Char × List Char))
  | value (name : List Char) (labels : List (List Char × List Char)) (value : List Char)

def State.step (c : Char) : State → Option (State × List Line)
  | .start => if c = '#' then some (.comment [], []) else some (.name [c], [])
  | .comment seen =>
    if c = '\n' then some (.start, declaration seen) else some (.comment (seen ++ [c]), [])
  | .name n =>
    if c = '{' then some (.key n [] [], [])
    else if c = ' ' then some (.value n [] [], [])
    else if c = '\n' then none
    else some (.name (n ++ [c]), [])
  | .key n ls k => if c = '=' then some (.quote n ls k, []) else some (.key n ls (k ++ [c]), [])
  | .quote n ls k => if c = '"' then some (.text n ls k [], []) else none
  | .text n ls k v =>
    if c = '"' then some (.closed n (ls ++ [(k, v)]), [])
    else if c = '\\' then some (.escaped n ls k v, [])
    else if c = '\n' then none
    else some (.text n ls k (v ++ [c]), [])
  | .escaped n ls k v =>
    if c = '\\' then some (.text n ls k (v ++ ['\\']), [])
    else if c = 'n' then some (.text n ls k (v ++ ['\n']), [])
    else if c = '"' then some (.text n ls k (v ++ ['"']), [])
    else none
  | .closed n ls =>
    if c = ',' then some (.key n ls [], []) else if c = '}' then some (.braced n ls, []) else none
  | .braced n ls => if c = ' ' then some (.value n ls [], []) else none
  | .value n ls v =>
    if c = '\n' then some (.start, [.sample ⟨n, ls, v⟩]) else some (.value n ls (v ++ [c]), [])

def State.run : State → List Char → Option (State × List Line)
  | s, [] => some (s, [])
  | s, c :: rest =>
    match s.step c with
    | none => none
    | some (s', out) =>
      match s'.run rest with
      | none => none
      | some (s'', more) => some (s'', out ++ more)

def Line.helpOf (name : List Char) : Line → Option (List Char)
  | .help n said => if n = name then some said else none
  | _ => none

def Line.kindOf (name : List Char) : Line → Option (List Char)
  | .kind n type => if n = name then some type else none
  | _ => none

def resolve (above : List Line) : List Line → List Exposed
  | [] => []
  | .sample s :: rest =>
    ⟨s, above.findSome? (Line.helpOf s.name), above.findSome? (Line.kindOf s.name)⟩ :: resolve above rest
  | line :: rest => resolve (above ++ [line]) rest

def read (text : List Char) : Option (List Exposed) :=
  match State.start.run text with
  | some (.start, lines) => some (resolve [] lines)
  | _ => none

end Reading

section RoundTrip

variable {s s' s'' : State} {out more : List Line}
variable {n k v : List Char} {ls : List (List Char × List Char)}

theorem run_cons {c : Char} {rest : List Char} (first : s.step c = some (s', out))
    (next : s'.run rest = some (s'', more)) : s.run (c :: rest) = some (s'', out ++ more) := by
  simp only [State.run, first, next]

theorem run_append {xs ys : List Char} (first : s.run xs = some (s', out))
    (next : s'.run ys = some (s'', more)) : s.run (xs ++ ys) = some (s'', out ++ more) := by
  induction xs generalizing s out with
  | nil =>
    obtain ⟨rfl, rfl⟩ := Prod.mk.inj (Option.some.inj first)
    exact next
  | cons c xs ih =>
    simp only [State.run] at first
    cases stepped : s.step c with
    | none => simp [stepped] at first
    | some result =>
      obtain ⟨mid, here⟩ := result
      rw [stepped] at first
      cases ran : mid.run xs with
      | none => simp [ran] at first
      | some result =>
        obtain ⟨last, later⟩ := result
        simp only [ran, Option.some.injEq, Prod.mk.injEq] at first
        obtain ⟨rfl, rfl⟩ := first
        rw [List.cons_append, run_cons stepped (ih ran), List.append_assoc]

theorem run_comment {text : List Char} (line : '\n' ∉ text) :
    (State.comment v).run text = some (.comment (v ++ text), []) := by
  induction text generalizing v with
  | nil => simp [State.run]
  | cons c text ih =>
    simp only [List.mem_cons, not_or] at line
    have stepped : (State.comment v).step c = some (.comment (v ++ [c]), []) := by
      simp [State.step, Ne.symm line.1]
    simpa using run_cons stepped (ih line.2)

theorem unescape_plain {text : List Char} (plain : '\\' ∉ text) : unescape text = text := by
  induction text with
  | nil => rfl
  | cons c text ih =>
    simp only [List.mem_cons, not_or] at plain
    rw [unescape, ih plain.2]
    · rintro rest rfl
      exact absurd rfl plain.1
    · rintro rest rfl
      exact absurd rfl plain.1

theorem splitName_space {name text : List Char} (plain : ' ' ∉ name) :
    splitName (name ++ ' ' :: text) = (name, text) := by
  have spaceless : ∀ c ∈ name, decide (c ≠ ' ') = true := by
    intro c listed
    exact decide_eq_true fun same => plain (same ▸ listed)
  unfold splitName
  rw [List.takeWhile_append_of_pos spaceless, List.dropWhile_append_of_pos spaceless]
  simp

theorem declaration_help {name text : List Char} (plain : ' ' ∉ name) (unescaped : '\\' ∉ text) :
    declaration (" HELP ".toList ++ name ++ ' ' :: text) = [.help name text] := by
  rw [List.append_assoc]
  simp [declaration, splitName_space plain, unescape_plain unescaped]

theorem declaration_kind {name type : List Char} (plain : ' ' ∉ name) :
    declaration (" TYPE ".toList ++ name ++ ' ' :: type) = [.kind name type] := by
  rw [List.append_assoc]
  simp [declaration, splitName_space plain]

theorem run_name {text : List Char} (plain : ∀ c ∈ text, c ≠ '{' ∧ c ≠ ' ' ∧ c ≠ '\n') :
    (State.name n).run text = some (.name (n ++ text), []) := by
  induction text generalizing n with
  | nil => simp [State.run]
  | cons c text ih =>
    obtain ⟨⟨brace, space, newline⟩, rest⟩ := List.forall_mem_cons.mp plain
    have stepped : (State.name n).step c = some (.name (n ++ [c]), []) := by
      simp [State.step, brace, space, newline]
    simpa using run_cons stepped (ih rest)

theorem run_key {text : List Char} (plain : '=' ∉ text) :
    (State.key n ls k).run text = some (.key n ls (k ++ text), []) := by
  induction text generalizing k with
  | nil => simp [State.run]
  | cons c text ih =>
    simp only [List.mem_cons, not_or] at plain
    have stepped : (State.key n ls k).step c = some (.key n ls (k ++ [c]), []) := by
      simp [State.step, Ne.symm plain.1]
    simpa using run_cons stepped (ih plain.2)

theorem run_value {text : List Char} (line : '\n' ∉ text) :
    (State.value n ls v).run text = some (.value n ls (v ++ text), []) := by
  induction text generalizing v with
  | nil => simp [State.run]
  | cons c text ih =>
    simp only [List.mem_cons, not_or] at line
    have stepped : (State.value n ls v).step c = some (.value n ls (v ++ [c]), []) := by
      simp [State.step, Ne.symm line.1]
    simpa using run_cons stepped (ih line.2)

theorem run_escapeChar (c : Char) :
    (State.text n ls k v).run (escapeChar c) = some (.text n ls k (v ++ [c]), []) := by
  unfold escapeChar
  split
  · simp [State.run, State.step, *]
  · split
    · simp [State.run, State.step, *]
    · split
      · simp [State.run, State.step, *]
      · simp [State.run, State.step, *]

theorem run_text (text : List Char) :
    (State.text n ls k v).run (text.flatMap escapeChar) = some (.text n ls k (v ++ text), []) := by
  induction text generalizing v with
  | nil => simp [State.run]
  | cons c text ih => simpa using run_append (run_escapeChar c) ih

theorem run_label {label : List Char × List Char} (plain : '=' ∉ label.1) :
    (State.key n ls []).run (writeLabel label) = some (.closed n (ls ++ [label]), []) := by
  have equals : (State.key n ls label.1).run ['=', '"'] = some (.text n ls label.1 [], []) := by
    simp [State.run, State.step]
  have close : (State.text n ls label.1 label.2).run ['"'] = some (.closed n (ls ++ [label]), []) := by
    simp [State.run, State.step]
  have text : (State.text n ls label.1 []).run (label.2.flatMap escapeChar) =
      some (.text n ls label.1 label.2, []) := run_text label.2
  have key : (State.key n ls []).run label.1 = some (.key n ls label.1, []) := run_key plain
  simpa [writeLabel, quoted] using run_append (run_append key equals) (run_append text close)

theorem run_labels {labels : List (List Char × List Char)} (plain : ∀ label ∈ labels, '=' ∉ label.1) :
    (State.closed n ls).run (labels.flatMap fun label => ',' :: writeLabel label) =
      some (.closed n (ls ++ labels), []) := by
  induction labels generalizing ls with
  | nil => simp [State.run]
  | cons label labels ih =>
    obtain ⟨here, later⟩ := List.forall_mem_cons.mp plain
    have comma : (State.closed n ls).step ',' = some (.key n ls [], []) := by simp [State.step]
    simpa using run_append (run_cons comma (run_label here)) (ih later)

structure Sample.Plain (s : Sample) : Prop where
  named : ∃ c rest, s.name = c :: rest ∧ c ≠ '#' ∧ ∀ d ∈ rest, d ≠ '{' ∧ d ≠ ' ' ∧ d ≠ '\n'
  keys : ∀ label ∈ s.labels, '=' ∉ label.1
  line : '\n' ∉ s.value

def Line.Plain : Line → Prop
  | .help name text => (' ' ∉ name ∧ '\n' ∉ name) ∧ '\n' ∉ text ∧ '\\' ∉ text
  | .kind name type => (' ' ∉ name ∧ '\n' ∉ name) ∧ '\n' ∉ type
  | .sample s => s.Plain

theorem run_labelled {labels : List (List Char × List Char)} (plain : ∀ label ∈ labels, '=' ∉ label.1) :
    (State.name n).run (writeLabels labels ++ [' ']) = some (.value n labels [], []) := by
  cases labels with
  | nil => simp [writeLabels, State.run, State.step]
  | cons label others =>
    obtain ⟨here, later⟩ := List.forall_mem_cons.mp plain
    have brace : (State.name n).step '{' = some (.key n [] [], []) := by simp [State.step]
    have close : (State.closed n (label :: others)).run ['}', ' '] =
        some (.value n (label :: others) [], []) := by simp [State.run, State.step]
    have labels := run_append (run_cons brace (run_label here)) (run_labels later)
    simpa [writeLabels] using run_append labels close

theorem run_sample {s : Sample} (plain : s.Plain) :
    State.start.run (Line.sample s).write = some (.start, [.sample s]) := by
  obtain ⟨c, rest, named, first, chars⟩ := plain.named
  have name : State.start.run s.name = some (.name s.name, []) := by
    have stepped : State.start.step c = some (.name [c], []) := by simp [State.step, first]
    rw [named]
    exact run_cons stepped (run_name chars)
  have ended : (State.value s.name s.labels s.value).run ['\n'] = some (.start, [.sample s]) := by
    simp [State.run, State.step]
  have value := run_append (run_append name (run_labelled plain.keys)) (run_value plain.line)
  simpa [Line.write] using run_append value ended

theorem run_declaration {text : List Char} (line : '\n' ∉ text) :
    State.start.run ('#' :: text ++ ['\n']) = some (.start, declaration text) := by
  have hash : State.start.step '#' = some (.comment [], []) := by simp [State.step]
  have ended : (State.comment text).run ['\n'] = some (.start, declaration text) := by
    simp [State.run, State.step]
  exact run_append (run_cons hash (run_comment line)) ended

theorem run_line {line : Line} (plain : line.Plain) :
    State.start.run line.write = some (.start, [line]) := by
  cases line with
  | help name text =>
    obtain ⟨⟨spaceless, named⟩, line, unescaped⟩ := plain
    rw [Line.write, run_declaration (by simp [named, line]), declaration_help spaceless unescaped]
  | kind name type =>
    obtain ⟨⟨spaceless, named⟩, line⟩ := plain
    rw [Line.write, run_declaration (by simp [named, line]), declaration_kind spaceless]
  | sample s => exact run_sample plain

/-- What was written is read back, whatever the label values are. -/
theorem read_write {lines : List Line} (plain : ∀ line ∈ lines, line.Plain) :
    read (write lines) = some (resolve [] lines) := by
  have ran : State.start.run (write lines) = some (.start, lines) := by
    induction lines with
    | nil => rfl
    | cons line lines ih =>
      obtain ⟨here, later⟩ := List.forall_mem_cons.mp plain
      exact run_append (run_line here) (ih later)
  simp only [read, ran]

end RoundTrip

end Exposition
