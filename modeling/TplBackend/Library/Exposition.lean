import TplBackend.Library.Lines

/-! The Prometheus text format 0.0.4. -/

namespace Exposition

open Text

def isBlank (c : Char) : Bool := c == ' ' || c == '\t'

def skip (text : Str) : Str := text.dropWhile isBlank

def isNameChar (colon : Bool) (c : Char) : Bool :=
  isLetter c || isDigit c || c == '_' || (colon && c == ':')

def isName (colon : Bool) (name : Str) : Bool :=
  name.all (isNameChar colon) && name.head?.any fun c => !isDigit c

def readName (colon : Bool) (text : Str) : Option (Str × Str) :=
  let name := text.takeWhile (isNameChar colon)
  if isName colon name then some (name, text.drop name.length) else none

def unescape (c : Char) : Option Char :=
  if c = '\\' ∨ c = '"' then some c else if c = 'n' then some '\n' else none

/-- What follows an opening quote, to its closing quote, and the rest; `escaped` tells that a
backslash stands in front. -/
def readQuoted : Bool → Str → Option (Str × Str)
  | _, [] => none
  | true, c :: rest => do
      let d ← unescape c
      (readQuoted false rest).map fun found => (d :: found.1, found.2)
  | false, c :: rest =>
      if c = '"' then some ([], rest)
      else if c = '\\' then readQuoted true rest
      else (readQuoted false rest).map fun found => (c :: found.1, found.2)

def readLabel (text : Str) : Option ((Str × Str) × Str) := do
  let (name, rest) ← readName false (skip text)
  let '=' :: rest := skip rest | none
  let '"' :: rest := skip rest | none
  let (value, rest) ← readQuoted false rest
  some ((name, value), skip rest)

def readLabels : Nat → Str → Option (List (Str × Str) × Str)
  | 0, _ => none
  | fuel + 1, text => do
      let (label, rest) ← readLabel text
      match rest with
      | ',' :: rest =>
          if (skip rest).head? = some '\x7d' then some ([label], (skip rest).tail)
          else (readLabels fuel rest).map fun found => (label :: found.1, found.2)
      | '\x7d' :: rest => some ([label], rest)
      | _ => none

def readLabelSet (text : Str) : Option (List (Str × Str) × Str) :=
  if text.head? = some '\x7b' then
    if (skip text.tail).head? = some '\x7d' then some ([], (skip text.tail).tail)
    else readLabels text.length text.tail
  else some ([], text)

structure Sample where
  name : Str
  labels : List (Str × Str)
  value : Str
  timestamp : Option Str

inductive Entry
  | help (name text : Str)
  | type (name kind : Str)
  | sample (sample : Sample)

def word (text : Str) : Str × Str :=
  (text.takeWhile fun c => !isBlank c, skip (text.dropWhile fun c => !isBlank c))

def readSample (line : Str) : Option Sample := do
  let (name, rest) ← readName true line
  let (labels, rest) ← readLabelSet (skip rest)
  let (value, rest) := word (skip rest)
  if value = [] then none
  if rest = [] then some ⟨name, labels, value, none⟩
  else if (word rest).2 = [] then some ⟨name, labels, value, some (word rest).1⟩
  else none

def unescapeHelp : Bool → Str → Str
  | true, [] => ['\\']
  | false, [] => []
  | true, c :: rest =>
      if c = '\\' then c :: unescapeHelp false rest
      else if c = 'n' then '\n' :: unescapeHelp false rest
      else '\\' :: c :: unescapeHelp false rest
  | false, c :: rest =>
      if c = '\\' then unescapeHelp true rest else c :: unescapeHelp false rest

def kinds : List Str :=
  [['c', 'o', 'u', 'n', 't', 'e', 'r'], ['g', 'a', 'u', 'g', 'e'],
    ['h', 'i', 's', 't', 'o', 'g', 'r', 'a', 'm'], ['s', 'u', 'm', 'm', 'a', 'r', 'y'],
    ['u', 'n', 't', 'y', 'p', 'e', 'd']]

/-- What a line whose first character is `#` says; nothing where it is a comment. -/
def readComment (text : Str) : Option (Option Entry) :=
  let (first, rest) := word text
  let (name, rest) := word rest
  if first = ['H', 'E', 'L', 'P'] then
    if isName true name then some (some (.help name (unescapeHelp false rest))) else none
  else if first = ['T', 'Y', 'P', 'E'] then
    if isName true name ∧ rest ∈ kinds then some (some (.type name rest)) else none
  else some none

def readLine (line : Str) : Option (Option Entry) :=
  if skip line = [] then some none
  else if (skip line).head? = some '#' then readComment (skip (skip line).tail)
  else (readSample (skip line)).map fun sample => some (.sample sample)

/-- The entries of a text whose every line is ended; `none` where one is malformed. -/
def parse (text : Str) : Option (List Entry) :=
  if (splitLines text).2 = [] then
    ((splitLines text).1.mapM readLine).map fun entries => entries.filterMap id
  else none

def Token (text : Str) : Prop :=
  text ≠ [] ∧ (∀ c ∈ text, isSpace c = false) ∧ text.head? ≠ some '\x7b'

def PlainLabel (label : Str × Str) : Prop :=
  isName false label.1 = true ∧ ∀ c ∈ label.2, c ≠ '"' ∧ c ≠ '\\' ∧ c ≠ '\n'

def labelText (label : Str × Str) : Str := label.1 ++ '=' :: '"' :: (label.2 ++ ['"'])

def labelsText : List (Str × Str) → Str
  | [] => []
  | label :: labels =>
      '\x7b' :: (labelText label ++ (labels.flatMap fun label => ',' :: labelText label) ++
        ['\x7d'])

section Words

variable {text value name rest : Str}

theorem isBlank_of_isSpace {c : Char} (printed : isSpace c = false) : isBlank c = false := by
  by_contra blank
  simp only [isBlank, Bool.not_eq_false, Bool.or_eq_true, beq_iff_eq] at blank
  rcases blank with rfl | rfl <;> exact absurd printed (by decide)

theorem skip_cons {c : Char} (printed : isBlank c = false) (rest : Str) :
    skip (c :: rest) = c :: rest := by
  simp [skip, printed]

theorem skip_blank (rest : Str) : skip (' ' :: rest) = skip rest := by
  simp [skip, isBlank]

theorem isBlank_of_isNameChar {colon : Bool} {c : Char} (named : isNameChar colon c = true) :
    isBlank c = false := by
  by_contra blank
  simp only [isBlank, Bool.not_eq_false, Bool.or_eq_true, beq_iff_eq] at blank
  rcases blank with rfl | rfl <;> cases colon <;> exact absurd named (by decide)

theorem word_end (printed : ∀ c ∈ text, isBlank c = false) : word text = (text, []) := by
  have all : ∀ c ∈ text, (!isBlank c) = true := by simpa using printed
  rw [word, List.takeWhile_eq_self_iff.mpr all, List.dropWhile_eq_nil_iff.mpr all]
  rfl

theorem word_append (printed : ∀ c ∈ text, isBlank c = false) (rest : Str) :
    word (text ++ ' ' :: rest) = (text, skip rest) := by
  have all : ∀ c ∈ text, (!isBlank c) = true := by simpa using printed
  rw [word, List.takeWhile_append_of_pos all, List.dropWhile_append_of_pos all]
  simp [isBlank, skip]

theorem readName_append {colon : Bool} (named : isName colon name = true)
    (ends : ∀ c ∈ rest.head?, isNameChar colon c = false) :
    readName colon (name ++ rest) = some (name, rest) := by
  have all : ∀ c ∈ name, isNameChar colon c = true := by
    simp only [isName, Bool.and_eq_true, List.all_eq_true] at named
    exact named.1
  have stop : rest.takeWhile (isNameChar colon) = [] := by
    cases rest with
    | nil => rfl
    | cons c rest => simp [ends c rfl]
  rw [readName, List.takeWhile_append_of_pos all, stop, List.append_nil, if_pos named,
    List.drop_left]

end Words

section Labels

theorem isNameChar_of_isName {colon : Bool} {name : Str} (named : isName colon name = true) :
    ∀ c ∈ name, isNameChar colon c = true := by
  simp only [isName, Bool.and_eq_true, List.all_eq_true] at named
  exact named.1

theorem isName_append {colon : Bool} {name rest : Str} (named : isName colon name = true)
    (chars : rest.all (isNameChar colon) = true) : isName colon (name ++ rest) = true := by
  cases name with
  | nil => simp [isName] at named
  | cons c name =>
      simp only [isName, List.cons_append, List.all_cons, List.head?_cons, Bool.and_eq_true,
        List.all_append] at named ⊢
      exact ⟨⟨named.1.1, named.1.2, chars⟩, named.2⟩

theorem isName_head {colon : Bool} {name : Str} (named : isName colon name = true) (rest : Str) :
    ∃ c tail, name ++ rest = c :: tail ∧ isNameChar colon c = true := by
  cases name with
  | nil => simp [isName] at named
  | cons c name => exact ⟨c, name ++ rest, rfl, isNameChar_of_isName named c List.mem_cons_self⟩

theorem skip_name {colon : Bool} {name : Str} (named : isName colon name = true) (rest : Str) :
    skip (name ++ rest) = name ++ rest := by
  obtain ⟨c, tail, shape, char⟩ := isName_head named rest
  rw [shape, skip_cons (isBlank_of_isNameChar char)]

theorem readQuoted_plain {value : Str} (plain : ∀ c ∈ value, c ≠ '"' ∧ c ≠ '\\' ∧ c ≠ '\n')
    (rest : Str) : readQuoted false (value ++ '"' :: rest) = some (value, rest) := by
  induction value with
  | nil => rfl
  | cons c value ih =>
      obtain ⟨quote, slash, _⟩ := plain c List.mem_cons_self
      rw [List.cons_append, readQuoted, if_neg quote, if_neg slash,
        ih fun d member => plain d (List.mem_cons_of_mem _ member), Option.map_some]

theorem readLabel_text {label : Str × Str} (plain : PlainLabel label) (rest : Str) :
    readLabel (labelText label ++ rest) = some (label, skip rest) := by
  have spelled : labelText label ++ rest = label.1 ++ '=' :: '"' :: (label.2 ++ '"' :: rest) := by
    simp [labelText]
  have name : readName false (label.1 ++ '=' :: '"' :: (label.2 ++ '"' :: rest)) =
      some (label.1, '=' :: '"' :: (label.2 ++ '"' :: rest)) :=
    readName_append plain.1 (by rintro c ⟨⟩; rfl)
  rw [spelled, readLabel, skip_name plain.1, name]
  simp only [Option.bind_eq_bind, Option.bind_some, skip_cons (show isBlank '=' = false by decide),
    skip_cons (show isBlank '"' = false by decide), readQuoted_plain plain.2]

theorem skip_label {label : Str × Str} (plain : PlainLabel label) (rest : Str) :
    (skip (labelText label ++ rest)).head? ≠ some '\x7d' := by
  obtain ⟨c, tail, shape, char⟩ := isName_head plain.1 ('=' :: '"' :: (label.2 ++ ['"']))
  have spelled : labelText label = c :: tail := shape
  rw [spelled, List.cons_append, skip_cons (isBlank_of_isNameChar char), List.head?_cons]
  rintro ⟨⟩
  exact absurd char (by decide)

theorem readLabels_text {label : Str × Str} {labels : List (Str × Str)}
    (plain : ∀ each ∈ label :: labels, PlainLabel each) {fuel : Nat} (enough : labels.length < fuel)
    (rest : Str) :
    readLabels fuel (labelText label ++ (labels.flatMap fun label => ',' :: labelText label) ++
        '\x7d' :: rest) = some (label :: labels, rest) := by
  induction labels generalizing label fuel with
  | nil =>
      obtain ⟨fuel, rfl⟩ : ∃ less, fuel = less + 1 := ⟨fuel - 1, by omega⟩
      rw [List.flatMap_nil, List.append_nil, readLabels, readLabel_text (plain _ List.mem_cons_self)]
      simp [skip_cons (show isBlank '\x7d' = false by decide)]
  | cons next labels ih =>
      obtain ⟨fuel, rfl⟩ : ∃ less, fuel = less + 1 := ⟨fuel - 1, by omega⟩
      have spelled : labelText label ++ ((next :: labels).flatMap fun label => ',' :: labelText label) ++
            '\x7d' :: rest =
          labelText label ++ ',' :: (labelText next ++
            (labels.flatMap fun label => ',' :: labelText label) ++ '\x7d' :: rest) := by
        simp
      have opened : (skip (labelText next ++ (labels.flatMap fun label => ',' :: labelText label) ++
          '\x7d' :: rest)).head? ≠ some '\x7d' := by
        rw [List.append_assoc]
        exact skip_label (plain next (by simp)) _
      rw [spelled, readLabels, readLabel_text (plain _ List.mem_cons_self)]
      simp only [Option.bind_eq_bind, Option.bind_some,
        skip_cons (show isBlank ',' = false by decide), if_neg opened]
      rw [ih (fun each member => plain each (List.mem_cons_of_mem _ member))
        (by simpa using enough), Option.map_some]

end Labels

structure Sample.Plain (sample : Sample) : Prop where
  named : isName true sample.name = true
  labelled : ∀ label ∈ sample.labels, PlainLabel label
  token : Token sample.value
  untimed : sample.timestamp = none

def Entry.Plain : Entry → Prop
  | .help name text =>
      isName true name = true ∧ (∀ c ∈ text, c ≠ '\\' ∧ c ≠ '\n') ∧
        ∀ c ∈ text.head?, isBlank c = false
  | .type name kind => isName true name = true ∧ kind ∈ kinds
  | .sample taken => taken.Plain

def Sample.line (sample : Sample) : Str :=
  sample.name ++ labelsText sample.labels ++ ' ' :: sample.value

def Entry.line : Entry → Str
  | .help name text => ['#', ' ', 'H', 'E', 'L', 'P', ' '] ++ name ++ ' ' :: text
  | .type name kind => ['#', ' ', 'T', 'Y', 'P', 'E', ' '] ++ name ++ ' ' :: kind
  | .sample taken => taken.line

section Lines

theorem blank_free {colon : Bool} {name : Str} (named : isName colon name = true) :
    ∀ c ∈ name, isBlank c = false :=
  fun c member => isBlank_of_isNameChar (isNameChar_of_isName named c member)

theorem skip_plain {text : Str} (starts : ∀ c ∈ text.head?, isBlank c = false) : skip text = text := by
  cases text with
  | nil => rfl
  | cons c rest => exact skip_cons (starts c rfl) rest

theorem unescapeHelp_plain {text : Str} (plain : ∀ c ∈ text, c ≠ '\\' ∧ c ≠ '\n') :
    unescapeHelp false text = text := by
  induction text with
  | nil => rfl
  | cons c text ih =>
      rw [unescapeHelp, if_neg (plain c List.mem_cons_self).1,
        ih fun d member => plain d (List.mem_cons_of_mem _ member)]

theorem readLabelSet_text {labels : List (Str × Str)} (plain : ∀ label ∈ labels, PlainLabel label)
    {rest : Str} (opened : rest.head? ≠ some '\x7b') :
    readLabelSet (labelsText labels ++ rest) = some (labels, rest) := by
  cases labels with
  | nil => exact if_neg opened
  | cons label labels =>
      have spelled : labelsText (label :: labels) ++ rest =
          '\x7b' :: (labelText label ++ (labels.flatMap fun label => ',' :: labelText label) ++
            '\x7d' :: rest) := by
        simp [labelsText]
      have closed : (skip (labelText label ++ (labels.flatMap fun label => ',' :: labelText label) ++
          '\x7d' :: rest)).head? ≠ some '\x7d' := by
        rw [List.append_assoc]
        exact skip_label (plain label List.mem_cons_self) _
      have enough : labels.length < (labelText label ++
          (labels.flatMap fun label => ',' :: labelText label) ++ '\x7d' :: rest).length + 1 := by
        have each : labels.length ≤ (labels.flatMap fun label => ',' :: labelText label).length := by
          clear plain spelled closed
          induction labels with
          | nil => exact Nat.le_refl 0
          | cons next labels ih =>
              rw [List.flatMap_cons, List.length_append, List.length_cons, List.length_cons]
              omega
        rw [List.length_append, List.length_append]
        omega
      rw [spelled, readLabelSet, List.head?_cons, if_pos rfl, List.tail_cons, if_neg closed,
        List.length_cons]
      exact readLabels_text plain enough rest

theorem readSample_line {sample : Sample} (plain : sample.Plain) :
    readSample sample.line = some sample := by
  obtain ⟨name, labels, value, timestamp⟩ := sample
  obtain ⟨named, labelled, ⟨some_, printed, opened⟩, untimed⟩ := plain
  dsimp only at named labelled some_ printed opened untimed
  subst untimed
  have free : ∀ c ∈ value, isBlank c = false :=
    fun c member => isBlank_of_isSpace (printed c member)
  have start : skip value = value :=
    skip_plain fun c head => free c (List.mem_of_mem_head? head)
  have name_ : readName true (name ++ (labelsText labels ++ ' ' :: value)) =
      some (name, labelsText labels ++ ' ' :: value) := by
    refine readName_append named ?_
    cases labels <;> (rintro c ⟨⟩; rfl)
  have labels_ : ∃ rest, readLabelSet (skip (labelsText labels ++ ' ' :: value)) =
      some (labels, rest) ∧ skip rest = value := by
    cases labels with
    | nil =>
        refine ⟨value, ?_, start⟩
        rw [labelsText, List.nil_append, skip_blank, start]
        exact readLabelSet_text labelled opened
    | cons label labels =>
        refine ⟨' ' :: value, ?_, by rw [skip_blank, start]⟩
        have brace : skip (labelsText (label :: labels) ++ ' ' :: value) =
            labelsText (label :: labels) ++ ' ' :: value := skip_cons (by decide) _
        rw [brace]
        exact readLabelSet_text labelled (by simp)
  obtain ⟨rest, labelSet, left⟩ := labels_
  rw [Sample.line, readSample, List.append_assoc, name_]
  simp only [Option.bind_eq_bind, Option.bind_some, labelSet, left, word_end free, if_neg some_,
    if_true]

theorem readLine_comment {keyword name text : Str} (keyed : ∀ c ∈ keyword, isBlank c = false)
    (some_ : keyword ≠ []) (named : isName true name = true)
    (starts : ∀ c ∈ text.head?, isBlank c = false) :
    readLine (['#', ' '] ++ keyword ++ ' ' :: (name ++ ' ' :: text)) =
      (if keyword = ['H', 'E', 'L', 'P'] then
        if isName true name then some (some (.help name (unescapeHelp false text))) else none
      else if keyword = ['T', 'Y', 'P', 'E'] then
        if isName true name ∧ text ∈ kinds then some (some (.type name text)) else none
      else some none) := by
  have start : skip (' ' :: (keyword ++ ' ' :: (name ++ ' ' :: text))) =
      keyword ++ ' ' :: (name ++ ' ' :: text) := by
    rw [skip_blank]
    obtain ⟨c, tail, rfl⟩ := List.exists_cons_of_ne_nil some_
    exact skip_cons (keyed c List.mem_cons_self) _
  have spelled : ['#', ' '] ++ keyword ++ ' ' :: (name ++ ' ' :: text) =
      '#' :: ' ' :: (keyword ++ ' ' :: (name ++ ' ' :: text)) := rfl
  rw [spelled, readLine, skip_cons (show isBlank '#' = false by decide),
    if_neg (List.cons_ne_nil _ _), List.head?_cons, if_pos rfl, List.tail_cons, start, readComment]
  simp only [word_append keyed, skip_name named, word_append (blank_free named), skip_plain starts]

theorem readLine_line {entry : Entry} (plain : entry.Plain) :
    readLine entry.line = some (some entry) := by
  cases entry with
  | help name text =>
      obtain ⟨named, plain, starts⟩ := plain
      have read := readLine_comment (show ∀ c ∈ ['H', 'E', 'L', 'P'], isBlank c = false by
        simp [isBlank]) (by simp) named starts
      rw [if_pos rfl, if_pos named, unescapeHelp_plain plain] at read
      simpa [Entry.line] using read
  | type name kind =>
      obtain ⟨named, known⟩ := plain
      have starts : ∀ c ∈ kind.head?, isBlank c = false := by
        simp only [kinds, List.mem_cons, List.not_mem_nil, or_false] at known
        rcases known with rfl | rfl | rfl | rfl | rfl <;> (rintro c ⟨⟩; rfl)
      have read := readLine_comment (show ∀ c ∈ ['T', 'Y', 'P', 'E'], isBlank c = false by
        simp [isBlank]) (by simp) named starts
      rw [if_neg (by decide), if_pos rfl, if_pos ⟨named, known⟩] at read
      simpa [Entry.line] using read
  | sample taken =>
      obtain ⟨c, tail, shape, char⟩ := isName_head plain.named
        (labelsText taken.labels ++ ' ' :: taken.value)
      have spelled : taken.line = c :: tail := by rw [Sample.line, List.append_assoc, shape]
      have start : skip taken.line = taken.line := by
        rw [spelled, skip_cons (isBlank_of_isNameChar char)]
      have comment : taken.line.head? ≠ some '#' := by
        rw [spelled]
        rintro ⟨⟩
        exact absurd char (by decide)
      rw [Entry.line, readLine, start, if_neg (by rw [spelled]; exact List.cons_ne_nil c tail),
        if_neg comment, readSample_line plain, Option.map_some]

theorem line_plain {entry : Entry} (plain : entry.Plain) : '\n' ∉ entry.line := by
  have names {colon : Bool} {name : Str} (named : isName colon name = true) : '\n' ∉ name := by
    intro member
    have char := isNameChar_of_isName named _ member
    cases colon <;> exact absurd char (by decide)
  cases entry with
  | help name text =>
      obtain ⟨named, plain, _⟩ := plain
      have free : '\n' ∉ text := fun member => (plain _ member).2 rfl
      simp [Entry.line, names named, free]
  | type name kind =>
      obtain ⟨named, known⟩ := plain
      have free : '\n' ∉ kind := by
        simp only [kinds, List.mem_cons, List.not_mem_nil, or_false] at known
        rcases known with rfl | rfl | rfl | rfl | rfl <;> decide
      simp [Entry.line, names named, free]
  | sample taken =>
      have value : '\n' ∉ taken.value := fun member => absurd (plain.token.2.1 _ member) (by decide)
      have label : ∀ label ∈ taken.labels, '\n' ∉ labelText label := by
        intro label member
        obtain ⟨named, chars⟩ := plain.labelled label member
        have free : '\n' ∉ label.2 := fun member => (chars _ member).2.2 rfl
        simp [labelText, names named, free]
      have labels : '\n' ∉ labelsText taken.labels := by
        cases shape : taken.labels with
        | nil => simp [labelsText]
        | cons first rest =>
            rw [shape] at label
            obtain ⟨first_, rest_⟩ := List.forall_mem_cons.mp label
            simpa [labelsText, first_] using rest_
      simp [Entry.line, Sample.line, names plain.named, labels, value]

/-- A text of plain entries, each on a line of its own, is read back. -/
theorem parse_lines {entries : List Entry} (plain : ∀ entry ∈ entries, entry.Plain) :
    parse (unlines (entries.map Entry.line)) = some entries := by
  have split_ : splitLines (unlines (entries.map Entry.line)) = (entries.map Entry.line, []) := by
    have free : ∀ line ∈ entries.map Entry.line, '\n' ∉ line := by
      simpa using fun entry member => line_plain (plain entry member)
    have read := splitLines_unlines free (List.not_mem_nil : '\n' ∉ [])
    rwa [List.append_nil] at read
  have read : (entries.map Entry.line).mapM readLine = some (entries.map some) := by
    clear split_
    induction entries with
    | nil => rfl
    | cons entry entries ih =>
        rw [List.map_cons, List.mapM_cons, readLine_line (plain entry List.mem_cons_self),
          ih fun other member => plain other (List.mem_cons_of_mem _ member)]
        rfl
  rw [parse, split_, if_pos rfl, read, Option.map_some, List.filterMap_map]
  simp

end Lines

structure Family where
  name : Str
  help : Str
  kind : Str
  samples : List Sample

def Family.entries (family : Family) : List Entry :=
  .help family.name family.help :: .type family.name family.kind :: family.samples.map .sample

def SameSeries (first second : Sample) : Prop :=
  first.name = second.name ∧ first.labels.Perm second.labels

instance : DecidableRel SameSeries := fun first second =>
  inferInstanceAs (Decidable (first.name = second.name ∧ first.labels.Perm second.labels))

structure Grouped (families : List Family) : Prop where
  once : (families.map Family.name).Nodup
  own : ∀ family ∈ families, ∀ sample ∈ family.samples, sample.name = family.name
  apart : (families.flatMap Family.samples).Pairwise fun first second => ¬ SameSeries first second

def valuesOf (samples : List Sample) (name : Str) (labels : List (Str × Str)) : List Str :=
  (samples.filter fun sample => sample.name = name ∧ labels.Perm sample.labels).map Sample.value

section Families

variable {families : List Family} {samples : List Sample}

theorem apart_of_own (once : (families.map Family.name).Nodup)
    (own : ∀ family ∈ families, ∀ sample ∈ family.samples, sample.name = family.name)
    (labelled : ∀ family ∈ families, family.samples.Pairwise fun first second =>
      ¬ first.labels.Perm second.labels) : Grouped families := by
  refine ⟨once, own, List.pairwise_flatMap.mpr ⟨?_, ?_⟩⟩
  · intro family member
    exact (labelled family member).imp fun different same => different same.2
  · have names := List.pairwise_map.mp once
    refine names.imp_of_mem fun {first second} left right different => ?_
    intro a member b other same
    exact different ((own first left a member).symm.trans (same.1.trans (own second right b other)))

theorem valuesOf_eq (apart : samples.Pairwise fun first second => ¬ SameSeries first second)
    {sample : Sample} (member : sample ∈ samples) :
    valuesOf samples sample.name sample.labels = [sample.value] := by
  have alone : samples.filter
      (fun other => other.name = sample.name ∧ sample.labels.Perm other.labels) = [sample] := by
    induction samples with
    | nil => cases member
    | cons first samples ih =>
        obtain ⟨fresh, apart⟩ := List.pairwise_cons.mp apart
        rcases List.mem_cons.mp member with rfl | later
        · rw [List.filter_cons_of_pos (by simp), List.filter_eq_nil_iff.mpr]
          intro other listed same
          simp only [decide_eq_true_eq] at same
          exact fresh other listed ⟨same.1.symm, same.2⟩
        · have other : ¬ (first.name = sample.name ∧ sample.labels.Perm first.labels) :=
            fun same => fresh sample later ⟨same.1, same.2.symm⟩
          rw [List.filter_cons_of_neg (by simpa using other), ih apart later]
  rw [valuesOf, alone, List.map_singleton]

end Families

end Exposition
