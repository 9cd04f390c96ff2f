import TplBackend.Library.Lines
import TplBackend.Library.Sed

/-! `db-access-bootstrap/merge-and-generate-app-env.sh`: values that are merged into the `.env` of the app. -/

namespace TplBackend.EnvMerge

open Sed Text

/-- The `sed` of the machine, where POSIX leaves it open. -/
structure SedProgram where
  /-- Whether `[\/&|]` holds the backslash when the slash is the delimiter. -/
  bracketBackslash : Bool
  /-- What a backslash and another character stand for in a replacement; nothing where that is refused. -/
  other : Char → Option Str
  /-- What becomes of a file where the script goes on after the replacement. -/
  onward : Str → Str → List Part → Str → Option Str

def keys : List Str :=
  ["DATABASE_URL".toList, "REDIS_HOST".toList, "REDIS_PORT".toList, "REDIS_DB".toList,
    "REDIS_PASSWORD".toList, "REDIS_USER".toList]

/-- The line matches `^key=`. -/
def starts (key line : Str) : Bool := (key ++ ['=']).isPrefixOf line

/-- `grep -E "^key="` -/
def entries (key file : Str) : List Str := (fileLines file).filter (starts key)

/-- `${line#*=}` -/
def afterEquals (line : Str) : Str := if '=' ∈ line then after '=' line else line

def getVal (key file : Str) : Option Str :=
  match (entries key file).getLast? with
  | some line => if line = [] then none else some (afterEquals line)
  | none => none

/-- `sed -e 's/[\/&|]/\\&/g'` -/
def esc (sed : SedProgram) (value : Str) : Str :=
  value.flatMap fun c =>
    if c = '/' ∨ c = '&' ∨ c = '|' ∨ sed.bracketBackslash = true ∧ c = '\\' then ['\\', c] else [c]

/-- The file after the call, or nothing where `sed` refuses its script and the call fails. -/
def setKvInApp (sed : SedProgram) (key value file : Str) : Option Str :=
  if entries key file ≠ [] then
    match replacement sed.other '#' (key ++ '=' :: (esc sed value ++ ['#'])) with
    | none => none
    | some (parts, []) =>
      some (unlines ((fileLines file).map fun line =>
        if starts key line = true then render parts line else line))
    | some (parts, rest) => sed.onward rest key parts file
  else some (file ++ '\n' :: (key ++ '=' :: value ++ ['\n']))

/-- What a merge is to leave of the file. -/
structure Merged (key value file after : Str) : Prop where
  last : (entries key after).getLast? = some (key ++ '=' :: value)
  others : (fileLines after).filter (fun line => !starts key line) =
      (fileLines file).filter (fun line => !starts key line) ∨
    (fileLines after).filter (fun line => !starts key line) =
      (fileLines file).filter (fun line => !starts key line) ++ [[]]
  read : getVal key after = some value

def Meets (sed : SedProgram) (key value file : Str) : Prop :=
  ∃ after, setKvInApp sed key value file = some after ∧ Merged key value file after

/-- No `#`, and no backslash that `sed` would take for its own. -/
def Faithful (sed : SedProgram) : Str → Prop
  | [] => True
  | c :: rest =>
    c ≠ '#' ∧ (c = '\\' → sed.bracketBackslash = true ∨ rest.head? = some '/' ∨ rest.head? = some '|') ∧
      Faithful sed rest

/-- No `#`, and no backslash where POSIX leaves open what it stands for. -/
inductive Specified : Str → Prop
  | nil : Specified []
  | char {c : Char} {rest : Str} (inside : c ≠ '#') (plain : c ≠ '\\') (later : Specified rest) :
      Specified (c :: rest)
  | escape {c : Char} {rest : Str} (known : c = '\\' ∨ c = '&' ∨ c = '/' ∨ c = '|')
      (later : Specified rest) : Specified ('\\' :: c :: rest)
  | last : Specified ['\\']

/-- The characters that stand for themselves in all the expressions of the script. -/
def Key (key : Str) : Prop := ∀ c ∈ key, isLetter c = true ∨ isDigit c = true ∨ c = '_'

section Reading

variable {sed : SedProgram} {value rest : Str} {c d : Char} {parts : List Part} {found : Str}

theorem esc_marked (marked : c = '/' ∨ c = '&' ∨ c = '|' ∨ sed.bracketBackslash = true ∧ c = '\\') :
    esc sed (c :: rest) = '\\' :: c :: esc sed rest := by
  rw [esc, List.flatMap_cons, if_pos marked]
  rfl

theorem esc_plain (plain : ¬ (c = '/' ∨ c = '&' ∨ c = '|' ∨ sed.bracketBackslash = true ∧ c = '\\')) :
    esc sed (c :: rest) = c :: esc sed rest := by
  rw [esc, List.flatMap_cons, if_neg plain]
  rfl

theorem replacement_slash (slash : sed.other '/' = some ['/']) (bar : sed.other '|' = some ['|'])
    (either : d = '/' ∨ d = '|') (text : Str) :
    replacement sed.other '#' ('\\' :: d :: text) = replacement sed.other '#' (d :: text) := by
  rw [replacement_escaped (by decide)]
  obtain rfl | rfl := either
  · rw [replacement_char (by decide) (by decide), escaped, if_neg (by decide), slash]
    rfl
  · rw [replacement_char (by decide) (by decide), escaped, if_neg (by decide), bar]
    rfl

theorem replacement_marked (slash : sed.other '/' = some ['/']) (bar : sed.other '|' = some ['|'])
    (marked : c = '/' ∨ c = '&' ∨ c = '|' ∨ c = '\\') (text : Str) :
    replacement sed.other '#' ('\\' :: c :: text) =
      (replacement sed.other '#' text).map (push (.literal [c])) := by
  rw [replacement_escaped (by decide)]
  obtain rfl | rfl | rfl | rfl := marked
  · rw [escaped, if_neg (by decide), slash]
    rfl
  · rfl
  · rw [escaped, if_neg (by decide), bar]
    rfl
  · rfl

theorem replacement_plain (slash : sed.other '/' = some ['/']) (bar : sed.other '|' = some ['|'])
    (inside : c ≠ '#') (plain : c ≠ '\\') (text : Str) :
    replacement sed.other '#' (esc sed (c :: rest) ++ text) =
      (replacement sed.other '#' (esc sed rest ++ text)).map (push (.literal [c])) := by
  by_cases marked : c = '/' ∨ c = '&' ∨ c = '|' ∨ sed.bracketBackslash = true ∧ c = '\\'
  · rw [esc_marked marked, List.cons_append, List.cons_append]
    exact replacement_marked slash bar (marked.imp_right (.imp_right (.imp_right And.right))) _
  · have apart : c ≠ '&' := fun same => marked (.inr (.inl same))
    rw [esc_plain marked, List.cons_append, replacement_char inside plain, if_neg apart]

theorem esc_backslash (bare : ¬ sed.bracketBackslash = true) : esc sed ('\\' :: rest) = '\\' :: esc sed rest :=
  esc_plain (by simp [bare])

theorem replacement_faithful (slash : sed.other '/' = some ['/']) (bar : sed.other '|' = some ['|'])
    (faithful : Faithful sed value) : ∃ parts,
      replacement sed.other '#' (esc sed value ++ ['#']) = some (parts, []) ∧
        ∀ found, render parts found = value := by
  induction value with
  | nil => exact ⟨[], replacement_end [], fun _ => rfl⟩
  | cons c rest ih =>
      obtain ⟨inside, backslash, later⟩ := faithful
      obtain ⟨parts, reads, shows⟩ := ih later
      have done (same : replacement sed.other '#' (esc sed (c :: rest) ++ ['#']) =
          (replacement sed.other '#' (esc sed rest ++ ['#'])).map (push (.literal [c]))) :
          ∃ parts, replacement sed.other '#' (esc sed (c :: rest) ++ ['#']) = some (parts, []) ∧
            ∀ found, render parts found = c :: rest := by
        refine ⟨.literal [c] :: parts, same.trans (by rw [reads]; rfl), fun found => ?_⟩
        rw [render_cons, shows]
        rfl
      by_cases plain : c ≠ '\\'
      · exact done (replacement_plain slash bar inside plain _)
      obtain rfl := not_not.mp plain
      by_cases bracket : sed.bracketBackslash = true
      · refine done ?_
        rw [esc_marked (.inr (.inr (.inr ⟨bracket, rfl⟩))), List.cons_append, List.cons_append]
        exact replacement_marked slash bar (.inr (.inr (.inr rfl))) _
      · -- The backslash of `rest` goes with this one, and its slash or bar is left to stand for itself.
        have next : ∃ d tail, rest = d :: tail ∧ (d = '/' ∨ d = '|') := by
          rcases (backslash rfl).resolve_left bracket with head | head
          · exact ⟨'/', rest.tail, List.eq_cons_of_mem_head? head, .inl rfl⟩
          · exact ⟨'|', rest.tail, List.eq_cons_of_mem_head? head, .inr rfl⟩
        obtain ⟨d, tail, rfl, either⟩ := next
        have doubled : esc sed (d :: tail) = '\\' :: d :: esc sed tail :=
          esc_marked (either.imp_right fun bar => .inr (.inl bar))
        refine done ?_
        rw [esc_backslash bracket, doubled]
        simp only [List.cons_append]
        rw [replacement_marked slash bar (.inr (.inr (.inr rfl))), replacement_slash slash bar either]

inductive Shown (found : Str) : Str → Str → Prop
  | nil : Shown found [] []
  | char {c : Char} {rest shown : Str} (plain : c ≠ '\\') (inside : c ≠ '#')
      (later : Shown found rest shown) : Shown found (c :: rest) (c :: shown)
  | kept {c : Char} {rest shown : Str} (either : c = '/' ∨ c = '|') (later : Shown found rest shown) :
      Shown found ('\\' :: c :: rest) ('\\' :: c :: shown)
  | halved {rest shown : Str} (later : Shown found rest shown) :
      Shown found ('\\' :: '\\' :: rest) ('\\' :: shown)
  | matched {rest shown : Str} (later : Shown found rest shown) :
      Shown found ('\\' :: '&' :: rest) ('\\' :: (found ++ shown))

theorem shown_of_specified (slash : sed.other '/' = some ['/']) (bar : sed.other '|' = some ['|'])
    (bare : ¬ sed.bracketBackslash = true) (specified : Specified value)
    (reads : replacement sed.other '#' (esc sed value ++ ['#']) = some (parts, rest)) (found : Str) :
    rest = [] ∧ Shown found value (render parts found) := by
  induction specified generalizing parts with
  | nil =>
      cases (replacement_end []).symm.trans reads
      exact ⟨rfl, .nil⟩
  | char inside plain _ ih =>
      rw [replacement_plain slash bar inside plain] at reads
      obtain ⟨later, onwards, rfl⟩ := map_push_eq_some reads
      exact (ih onwards).imp_right fun shown => .char plain inside shown
  | @escape c text known _ ih =>
      rw [esc_backslash bare, List.cons_append] at reads
      obtain rfl | rfl | either := known
      · rw [esc_backslash bare, List.cons_append, replacement_marked slash bar (.inr (.inr (.inr rfl)))] at reads
        obtain ⟨later, onwards, rfl⟩ := map_push_eq_some reads
        exact (ih onwards).imp_right .halved
      · rw [esc_marked (.inr (.inl rfl)), List.cons_append, List.cons_append,
          replacement_marked slash bar (.inr (.inr (.inr rfl))),
          replacement_char (by decide) (by decide), if_pos rfl] at reads
        obtain ⟨_, next, rfl⟩ := map_push_eq_some reads
        obtain ⟨later, onwards, rfl⟩ := map_push_eq_some next
        exact (ih onwards).imp_right .matched
      · have marked : esc sed (c :: text) = '\\' :: c :: esc sed text :=
          esc_marked (either.imp_right fun bar => .inr (.inl bar))
        have plain : c ≠ '#' ∧ c ≠ '\\' ∧ c ≠ '&' := by
          obtain rfl | rfl := either <;> decide
        rw [marked, List.cons_append, List.cons_append, replacement_marked slash bar (.inr (.inr (.inr rfl))),
          replacement_char plain.1 plain.2.1, if_neg plain.2.2] at reads
        obtain ⟨_, next, rfl⟩ := map_push_eq_some reads
        obtain ⟨later, onwards, rfl⟩ := map_push_eq_some next
        exact (ih onwards).imp_right (.kept either)
  | last =>
      -- The backslash takes the `#` that was to end the replacement.
      rw [esc_backslash bare] at reads
      change replacement sed.other '#' ['\\', '#'] = _ at reads
      rw [replacement_escaped (by decide)] at reads
      exact absurd reads nofun

theorem Shown.not_longer {first : Char} {tail shown : Str} (other : first ≠ '\\')
    (reads : Shown (first :: tail) value shown) (count : Nat) :
    shown ≠ List.replicate (count + 1) '\\' ++ value := by
  induction reads generalizing count with
  | nil => simp
  | char plain _ _ _ =>
      intro same
      rw [List.replicate_succ, List.cons_append, List.cons.injEq] at same
      exact plain same.1
  | kept either _ _ =>
      intro same
      rw [List.replicate_succ, List.cons_append, List.cons.injEq] at same
      cases count with
      | zero => obtain rfl | rfl := either <;> simp at same
      | succ count =>
          rw [List.replicate_succ, List.cons_append, List.cons.injEq] at same
          obtain rfl | rfl := either <;> simp at same
  | halved _ ih =>
      intro same
      rw [List.replicate_succ, List.cons_append, List.cons.injEq] at same
      refine ih (count + 1) (same.2.trans ?_)
      simp [List.replicate_succ']
  | matched _ _ =>
      intro same
      have behind := (List.cons.inj same).2
      cases count with
      | zero => exact other (List.cons.inj behind).1
      | succ count => exact other (List.cons.inj behind).1

theorem Shown.faithful {first : Char} {tail shown : Str} (backslash : first ≠ '\\') (ampersand : first ≠ '&')
    (reads : Shown (first :: tail) value shown) (same : shown = value) : Faithful sed value := by
  induction reads with
  | nil => trivial
  | char plain inside _ ih => exact ⟨inside, fun bad => absurd bad plain, ih (List.cons.inj same).2⟩
  | @kept c _ _ either _ ih =>
      have plain : c ≠ '#' ∧ c ≠ '\\' := by
        obtain rfl | rfl := either <;> decide
      refine ⟨by decide, fun _ => .inr ?_, plain.1, fun bad => absurd bad plain.2, ?_⟩
      · exact either.imp (congrArg some) (congrArg some)
      · exact ih (List.cons.inj (List.cons.inj same).2).2
  | halved later _ => exact absurd (List.cons.inj same).2 (later.not_longer backslash 0)
  | matched _ _ => exact absurd (List.cons.inj (List.cons.inj same).2).1 ampersand

theorem faithful_of_bracket (bracket : sed.bracketBackslash = true) (specified : Specified value) :
    Faithful sed value := by
  induction specified with
  | nil => trivial
  | char inside _ _ ih => exact ⟨inside, fun _ => .inl bracket, ih⟩
  | escape known _ ih =>
      refine ⟨by decide, fun _ => .inl bracket, ?_, fun _ => .inl bracket, ih⟩
      obtain rfl | rfl | rfl | rfl := known <;> decide
  | last => exact ⟨by decide, fun _ => .inl bracket, trivial⟩

end Reading

section Merging

variable {sed : SedProgram} {key value file line : Str}

theorem key_plain (literal : Key key) {c : Char} (member : c ∈ key) :
    c ≠ '#' ∧ c ≠ '\\' ∧ c ≠ '&' ∧ c ≠ '=' ∧ c ≠ '\n' := by
  have marks : ∀ d ∈ ['#', '\\', '&', '=', '\n'], ¬ (isLetter d = true ∨ isDigit d = true ∨ d = '_') := by
    simp [isLetter, isDigit]
  refine ⟨?_, ?_, ?_, ?_, ?_⟩ <;> rintro rfl <;> exact marks _ (by simp) (literal _ member)

theorem entry_plain (literal : Key key) (single : '\n' ∉ value) : '\n' ∉ key ++ '=' :: value := by
  intro member
  rcases List.mem_append.mp member with inner | inner
  · exact (key_plain literal inner).2.2.2.2 rfl
  · simp [single] at inner

theorem starts_entry (key value : Str) : starts key (key ++ '=' :: value) = true := by
  rw [starts, List.isPrefixOf_iff_prefix]
  exact ⟨value, by simp⟩

theorem starts_nil (key : Str) : starts key [] = false := by
  cases key <;> rfl

theorem afterEquals_entry (literal : Key key) (value : Str) : afterEquals (key ++ '=' :: value) = value := by
  have inside : '=' ∈ key ++ '=' :: value := by simp
  have free : '=' ∉ key := fun member => (key_plain literal member).2.2.2.1 rfl
  rw [afterEquals, if_pos inside, after_append_of_not_mem free]

theorem getVal_of_last (literal : Key key) (last : (entries key file).getLast? = some (key ++ '=' :: value)) :
    getVal key file = some value := by
  have some_ : key ++ '=' :: value ≠ [] := by simp
  simp only [getVal, last, if_neg some_, afterEquals_entry literal]

theorem replacement_key (literal : Key key) (text : Str) :
    replacement sed.other '#' (key ++ '=' :: text) =
      (replacement sed.other '#' text).map fun parsed =>
        ((key ++ ['=']).map (fun c => .literal [c]) ++ parsed.1, parsed.2) := by
  rw [List.append_cons]
  refine replacement_text (fun c member => ?_) text
  rcases List.mem_append.mp member with inner | inner
  · exact ⟨(key_plain literal inner).1, (key_plain literal inner).2.1, (key_plain literal inner).2.2.1⟩
  · rw [List.mem_singleton.mp inner]
    decide

theorem filter_map_replaced {α : Type} (p : α → Bool) (g : α → α) (keeps : ∀ a, p a = true → p (g a) = true)
    (items : List α) :
    (items.map fun a => if p a = true then g a else a).filter p = (items.filter p).map g ∧
      (items.map fun a => if p a = true then g a else a).filter (fun a => !p a) =
        items.filter fun a => !p a := by
  induction items with
  | nil => exact ⟨rfl, rfl⟩
  | cons a items ih =>
      by_cases chosen : p a = true
      · simp [chosen, keeps a chosen, ih]
      · simp [chosen, ih]

theorem merged_append (literal : Key key) (single : '\n' ∉ value) (file : Str) :
    Merged key value file (file ++ '\n' :: (key ++ '=' :: value ++ ['\n'])) := by
  have started := starts_entry key value
  have blank := starts_nil key
  have last : (entries key (file ++ '\n' :: (key ++ '=' :: value ++ ['\n']))).getLast? =
      some (key ++ '=' :: value) := by
    rcases fileLines_append (entry_plain literal single) file with lines | lines <;>
      rw [entries, lines, List.filter_append] <;> simp [started, blank]
  refine ⟨last, ?_, getVal_of_last literal last⟩
  rcases fileLines_append (entry_plain literal single) file with lines | lines
  · refine .inl ?_
    rw [lines, List.filter_append]
    simp [started]
  · refine .inr ?_
    rw [lines, List.filter_append]
    simp [started, blank]

def replaced (key : Str) (shown : Str → Str) (file : Str) : Str :=
  unlines ((fileLines file).map fun line => if starts key line = true then key ++ '=' :: shown line else line)

theorem fileLines_replaced (literal : Key key) {shown : Str → Str}
    (single : ∀ line ∈ entries key file, '\n' ∉ shown line) :
    entries key (replaced key shown file) = (entries key file).map (fun line => key ++ '=' :: shown line) ∧
      (fileLines (replaced key shown file)).filter (fun line => !starts key line) =
        (fileLines file).filter fun line => !starts key line := by
  have plain : ∀ line ∈ (fileLines file).map (fun line =>
      if starts key line = true then key ++ '=' :: shown line else line), '\n' ∉ line := by
    intro line member
    obtain ⟨old, inside, rfl⟩ := List.mem_map.mp member
    split
    · exact entry_plain literal (single old (List.mem_filter.mpr ⟨inside, ‹_›⟩))
    · exact fileLines_plain inside
  rw [entries, replaced, fileLines_unlines plain]
  exact filter_map_replaced (starts key) _ (fun line _ => starts_entry key (shown line)) (fileLines file)

theorem setKvInApp_replaced (literal : Key key) {parts : List Part} (present : entries key file ≠ [])
    (reads : replacement sed.other '#' (esc sed value ++ ['#']) = some (parts, [])) :
    setKvInApp sed key value file = some (replaced key (render parts) file) := by
  have rendered (line : Str) : render ((key ++ ['=']).map (fun c => .literal [c]) ++ parts) line =
      key ++ '=' :: render parts line := by
    rw [render_text, List.append_assoc]
    rfl
  rw [setKvInApp, if_pos present, replacement_key literal, reads]
  simp only [Option.map_some, rendered]
  rfl

theorem getLast_map {α β : Type} (g : α → β) {items : List α} (some_ : items ≠ []) :
    ∃ a ∈ items, (items.map g).getLast? = some (g a) :=
  ⟨items.getLast some_, List.getLast_mem some_, by simp [List.getLast?_map, List.getLast?_eq_some_getLast some_]⟩

theorem shown_single {found shown : Str} (reads : Shown found value shown) (single : '\n' ∉ value)
    (line : '\n' ∉ found) : '\n' ∉ shown := by
  induction reads <;> simp_all

theorem merge_faithful (slash : sed.other '/' = some ['/']) (bar : sed.other '|' = some ['|'])
    (literal : Key key) (single : '\n' ∉ value) (fits : entries key file = [] ∨ Faithful sed value) :
    Meets sed key value file := by
  by_cases absent : entries key file = []
  · refine ⟨_, ?_, merged_append literal single file⟩
    rw [setKvInApp, if_neg (not_not.mpr absent)]
  obtain ⟨parts, reads, shows⟩ := replacement_faithful slash bar (fits.resolve_left absent)
  refine ⟨_, setKvInApp_replaced literal absent reads, ?_⟩
  have plain : ∀ line ∈ entries key file, '\n' ∉ render parts line := fun line _ => by rwa [shows line]
  obtain ⟨same, others⟩ := fileLines_replaced literal plain
  have last : (entries key (replaced key (render parts) file)).getLast? = some (key ++ '=' :: value) := by
    obtain ⟨line, _, final⟩ := getLast_map (fun line => key ++ '=' :: render parts line) absent
    rw [same, final, shows]
  exact ⟨last, .inl others, getVal_of_last literal last⟩

theorem faithful_of_merge (slash : sed.other '/' = some ['/']) (bar : sed.other '|' = some ['|'])
    (literal : Key key) (single : '\n' ∉ value) (specified : Specified value)
    (meets : Meets sed key value file) : entries key file = [] ∨ Faithful sed value := by
  by_cases absent : entries key file = []
  · exact .inl absent
  refine .inr ?_
  by_cases bracket : sed.bracketBackslash = true
  · exact faithful_of_bracket bracket specified
  obtain ⟨written, ran, merged⟩ := meets
  rcases (replacement sed.other '#' (esc sed value ++ ['#'])).eq_none_or_eq_some with refused | ⟨⟨parts, rest⟩, reads⟩
  · rw [setKvInApp, if_pos absent, replacement_key literal, refused] at ran
    exact absurd ran nofun
  obtain rfl := (shown_of_specified slash bar bracket specified reads []).1
  have shown (found : Str) := (shown_of_specified slash bar bracket specified reads found).2
  cases ran.symm.trans (setKvInApp_replaced literal absent reads)
  have plain : ∀ line ∈ entries key file, '\n' ∉ render parts line := fun line member =>
    shown_single (shown line) single (fileLines_plain (List.mem_filter.mp member).1)
  obtain ⟨same, _⟩ := fileLines_replaced literal plain
  obtain ⟨line, member, final⟩ := getLast_map (fun line => key ++ '=' :: render parts line) absent
  have rendered : render parts line = value := by
    have last := merged.last
    rw [same, final, Option.some.injEq] at last
    exact (List.cons.inj (List.append_cancel_left last)).2
  obtain ⟨first, tail, begins, backslash, ampersand⟩ :
      ∃ first tail, line = first :: tail ∧ first ≠ '\\' ∧ first ≠ '&' := by
    have matched : (key ++ ['=']) <+: line := List.isPrefixOf_iff_prefix.mp (List.mem_filter.mp member).2
    obtain ⟨tail, rfl⟩ := matched
    cases key with
    | nil => exact ⟨'=', tail, rfl, by decide, by decide⟩
    | cons c key =>
        have plain := key_plain literal List.mem_cons_self
        exact ⟨c, _, rfl, plain.2.1, plain.2.2.1⟩
  subst begins
  exact (shown (first :: tail)).faithful backslash ampersand rendered

theorem key_of_keys (member : key ∈ keys) : Key key := by
  have plain : keys.all (fun key => key.all fun c => isLetter c || isDigit c || c == '_') = true := by
    simp [keys, isLetter, isDigit]
  intro c inside
  have held := List.all_eq_true.mp (List.all_eq_true.mp plain key member) c inside
  simpa [or_assoc] using held

end Merging

/-- A merge writes what it has read where the key has no line, or where the value is `Faithful`; of the values
that POSIX gives a meaning to, there alone. -/
theorem merge_iff {sed : SedProgram} (slash : sed.other '/' = some ['/']) (bar : sed.other '|' = some ['|'])
    {key value : Str} (literal : Key key) (single : '\n' ∉ value) (file : Str) :
    (entries key file = [] ∨ Faithful sed value → Meets sed key value file) ∧
      (Specified value → Meets sed key value file → entries key file = [] ∨ Faithful sed value) :=
  ⟨merge_faithful slash bar literal single, faithful_of_merge slash bar literal single⟩

/-- No flag of `s` is a `b`. -/
def SedProgram.Refuses (sed : SedProgram) : Prop :=
  ∀ (rest key : Str) (parts : List Part) (file : Str), sed.onward ('b' :: rest) key parts file = none

def plainSed : SedProgram := ⟨false, fun c => some [c], fun _ _ _ _ => none⟩

def redisUser : Str := ['R', 'E', 'D', 'I', 'S', '_', 'U', 'S', 'E', 'R']

def oldFile : Str := redisUser ++ ['=', 't', 'p', 'l', '\n']

theorem merge_iff_slash : Meets plainSed redisUser ['a', '/', '&'] oldFile :=
  (merge_iff rfl rfl (key_of_keys (by simp [keys, redisUser])) (by decide) oldFile).1
    (.inr ⟨by decide, by decide, by decide, by decide, by decide, by decide, trivial⟩)

/-- A `#` ends the replacement, and of two backslashes one is written where the bracket does not hold them. -/
theorem merge_loses :
    (∀ sed : SedProgram, sed.Refuses → ¬ Meets sed redisUser ['a', '#', 'b'] oldFile) ∧ plainSed.Refuses ∧
      setKvInApp plainSed redisUser ['\\', '\\'] oldFile = some (redisUser ++ ['=', '\\', '\n']) ∧
        ¬ Meets plainSed redisUser ['\\', '\\'] oldFile := by
  have halved : setKvInApp plainSed redisUser ['\\', '\\'] oldFile =
      some (redisUser ++ ['=', '\\', '\n']) := by decide
  refine ⟨fun sed refuses ⟨_, ran, _⟩ => ?_, fun _ _ _ _ => rfl, halved, fun ⟨_, ran, merged⟩ => ?_⟩
  · have literal : Key redisUser := key_of_keys (by simp [keys, redisUser])
    have quoted : esc sed ['a', '#', 'b'] = ['a', '#', 'b'] := by simp [esc]
    have cut : replacement sed.other '#' (['a', '#', 'b'] ++ ['#']) = some ([.literal ['a']], ['b', '#']) := by
      rw [List.cons_append, replacement_char (by decide) (by decide), List.cons_append, replacement_end]
      rfl
    have present : entries redisUser oldFile ≠ [] := by decide
    rw [setKvInApp, if_pos present, replacement_key literal, quoted, cut] at ran
    exact absurd ((refuses _ _ _ _).symm.trans ran) nofun
  · cases halved.symm.trans ran
    exact absurd merged.read (by decide)

end TplBackend.EnvMerge
