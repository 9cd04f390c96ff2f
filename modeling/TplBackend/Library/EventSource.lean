import TplBackend.Library.EventStream

/-! An `EventSource` that opens its stream again wherever a connection ends. -/

namespace EventStream

open Text

/-- The last event id that the lines leave behind `last`. -/
def rememberedFrom (last : Str) : Buffers → List Str → Str
  | _, [] => last
  | buffers, [] :: lines =>
      rememberedFrom buffers.lastEventId { buffers with data := [], type := [] } lines
  | buffers, line :: lines => rememberedFrom last (buffers.line line) lines

def remembered (last stream : Str) : Str :=
  rememberedFrom last .empty
    (linesFrom false [] (if stream.head? = some '\ufeff' then stream.tail else stream))

def framed (messages : List Message) : Str :=
  messages.flatMap fun m => frame m.lastEventId m.type m.data

structure Message.Framed (m : Message) : Prop where
  id : OneLine m.lastEventId
  type : OneLine m.type
  data : OneLine m.data
  typed : m.type ≠ []
  identified : '\x00' ∉ m.lastEventId

/-- What an `EventSource` keeps between two connections; `closed` once an answer was no stream. -/
structure Source where
  closed : Bool
  lastEventId : Str
  received : List Message
  deriving DecidableEq

def Source.opened : Source := ⟨false, [], []⟩

section Connections

variable {ε : Type}

/-- The `Last-Event-ID` header of a connection. -/
def Source.header (source : Source) : Option Str :=
  if source.lastEventId = [] then none else some source.lastEventId

/-- A connection that ends, or is cut, behind `length` characters of the stream. -/
def Source.connect (serve : Option Str → Except ε Str) (source : Source) (length : Nat) : Source :=
  if source.closed then source
  else
    match serve source.header with
    | .error _ => { source with closed := true }
    | .ok stream =>
        { source with
          lastEventId := remembered source.lastEventId (stream.take length)
          received := source.received ++ messages (stream.take length) }

end Connections

section Cut

variable {id type data : Str}

theorem linesFrom_initial (cr : Bool) (line : Str) {cut whole : Str} (part : cut <+: whole) :
    linesFrom cr line cut <+: linesFrom cr line whole := by
  induction cut generalizing whole cr line with
  | nil => exact List.nil_prefix
  | cons c cut ih =>
      obtain ⟨rest, rfl⟩ := part
      have part : cut <+: cut ++ rest := List.prefix_append cut rest
      rw [List.cons_append, linesFrom, linesFrom]
      split
      · exact List.cons_prefix_cons.mpr ⟨rfl, ih _ _ part⟩
      · split
        · split
          · exact ih _ _ part
          · exact List.cons_prefix_cons.mpr ⟨rfl, ih _ _ part⟩
        · exact ih _ _ part

theorem dispatch_unfinished (buffers : Buffers) {lines : List Str} (unfinished : [] ∉ lines) :
    dispatch buffers lines = [] := by
  induction lines generalizing buffers with
  | nil => rfl
  | cons line lines ih =>
      rw [List.mem_cons, not_or] at unfinished
      obtain ⟨c, rest, rfl⟩ := List.exists_cons_of_ne_nil (Ne.symm unfinished.1)
      exact ih _ unfinished.2

theorem rememberedFrom_unfinished (last : Str) (buffers : Buffers) {lines : List Str}
    (unfinished : [] ∉ lines) : rememberedFrom last buffers lines = last := by
  induction lines generalizing buffers with
  | nil => rfl
  | cons line lines ih =>
      rw [List.mem_cons, not_or] at unfinished
      obtain ⟨c, rest, rfl⟩ := List.exists_cons_of_ne_nil (Ne.symm unfinished.1)
      exact ih _ unfinished.2

theorem linesFrom_ended (cr : Bool) (line text rest : Str) :
    linesFrom cr line (text ++ '\n' :: rest) =
      linesFrom cr line (text ++ ['\n']) ++ linesFrom false [] rest := by
  induction text generalizing cr line with
  | nil =>
      simp only [List.nil_append, linesFrom, if_neg (show '\n' ≠ '\r' by decide), if_true]
      split <;> rfl
  | cons c text ih =>
      rw [List.cons_append, List.cons_append, linesFrom, linesFrom]
      split
      · rw [ih, List.cons_append]
      · split
        · split
          · exact ih _ _
          · rw [ih, List.cons_append]
        · exact ih _ _

variable (ids : OneLine id) (types : OneLine type) (datas : OneLine data)

include ids types datas in
theorem unfinished_frame {length : Nat} (short : length < (frame id type data).length) :
    [] ∉ linesFrom false [] ((frame id type data).take length) := by
  obtain ⟨fields, spelled⟩ : ∃ fields, frame id type data = fields ++ ['\n'] ++ ['\n'] :=
    ⟨['i', 'd', ':', ' '] ++ id ++ ['\n', 'e', 'v', 'e', 'n', 't', ':', ' '] ++ type ++
      ['\n', 'd', 'a', 't', 'a', ':', ' '] ++ data, by simp [frame]⟩
  have all : linesFrom false [] (frame id type data ++ []) = _ := linesFrom_frame ids types datas
  rw [List.append_nil, spelled, List.append_assoc, List.singleton_append, linesFrom_ended] at all
  have named : linesFrom false [] (fields ++ ['\n']) =
      [['i', 'd'] ++ ':' :: ' ' :: id, ['e', 'v', 'e', 'n', 't'] ++ ':' :: ' ' :: type,
        ['d', 'a', 't', 'a'] ++ ':' :: ' ' :: data] := by
    refine List.append_cancel_right (?_ : _ ++ [[]] = _ ++ [[]])
    exact all
  have part : (frame id type data).take length <+: fields ++ ['\n'] := by
    rw [spelled] at short ⊢
    rw [List.length_append, List.length_singleton] at short
    rw [List.take_append_of_le_length (by omega)]
    exact List.take_prefix _ _
  intro member
  have inside := (linesFrom_initial false [] part).subset member
  rw [named] at inside
  simp at inside

include ids types datas in
theorem rememberedFrom_frame (identified : '\x00' ∉ id) (last start rest : Str) :
    rememberedFrom last ⟨[], [], start⟩ (linesFrom false [] (frame id type data ++ rest)) =
      rememberedFrom id ⟨[], [], id⟩ (linesFrom false [] rest) := by
  have field (buffers : Buffers) {name : Str} (named : name ≠ []) (free : ':' ∉ name) (value : Str)
      (lines : List Str) : rememberedFrom last buffers ((name ++ ':' :: ' ' :: value) :: lines) =
        rememberedFrom last (buffers.field name value) lines := by
    obtain ⟨c, tail, shape⟩ := List.exists_cons_of_ne_nil
      (List.append_ne_nil_of_left_ne_nil named (':' :: ' ' :: value))
    rw [shape, rememberedFrom, ← shape, line_field buffers named free]
    exact List.cons_ne_nil c tail
  rw [linesFrom_frame ids types datas, field _ (by decide) (by decide),
    field _ (by decide) (by decide), field _ (by decide) (by decide), rememberedFrom]
  simp [Buffers.field, identified]

end Cut

section Resumed

variable {frames feed : List Message}

theorem framed_cons (m : Message) (frames : List Message) :
    framed (m :: frames) = frame m.lastEventId m.type m.data ++ framed frames := rfl

theorem framed_append (first second : List Message) :
    framed (first ++ second) = framed first ++ framed second := List.flatMap_append

def lastId (last : Str) (read : List Message) : Str :=
  (read.getLast?.map Message.lastEventId).getD last

theorem cut_frames (clean : ∀ m ∈ frames, m.Framed) (length : Nat) (last start : Str) :
    ∃ read rest, frames = read ++ rest ∧ ((framed frames).length ≤ length → rest = []) ∧
      dispatch ⟨[], [], start⟩ (linesFrom false [] ((framed frames).take length)) = read ∧
      rememberedFrom last ⟨[], [], start⟩ (linesFrom false [] ((framed frames).take length)) =
        lastId last read := by
  induction frames generalizing length last start with
  | nil => exact ⟨[], [], rfl, fun _ => rfl, by simp [framed, linesFrom, dispatch], by
      simp [framed, linesFrom, rememberedFrom, lastId]⟩
  | cons m frames ih =>
      have whole := clean m List.mem_cons_self
      rw [framed_cons]
      by_cases short : length < (frame m.lastEventId m.type m.data).length
      · have unfinished := unfinished_frame whole.id whole.type whole.data short
        rw [List.take_append_of_le_length short.le]
        refine ⟨[], m :: frames, rfl, fun long => ?_, dispatch_unfinished _ unfinished,
          rememberedFrom_unfinished _ _ unfinished⟩
        rw [List.length_append] at long
        omega
      · obtain ⟨read, rest, split, all, dispatched, left⟩ :=
          ih (fun other member => clean other (List.mem_cons_of_mem _ member))
            (length - (frame m.lastEventId m.type m.data).length) m.lastEventId m.lastEventId
        rw [List.take_append, List.take_of_length_le (by omega)]
        refine ⟨m :: read, rest, by rw [split, List.cons_append], fun long => ?_, ?_, ?_⟩
        · rw [List.length_append] at long
          exact all (by omega)
        · rw [dispatch_frame whole.id whole.type whole.data whole.typed whole.identified, dispatched]
        · rw [rememberedFrom_frame whole.id whole.type whole.data whole.identified, left]
          cases read with
          | nil => rfl
          | cons other read => simp [lastId, List.getLast?_cons]

theorem head_framed (frames : List Message) (length : Nat) :
    ((framed frames).take length).head? ≠ some '\ufeff' := by
  cases length with
  | zero => simp
  | succ length =>
      cases frames with
      | nil => simp [framed]
      | cons m frames => simp [framed_cons, frame]

theorem cut_framed (clean : ∀ m ∈ frames, m.Framed) (length : Nat) (last : Str) :
    ∃ read rest, frames = read ++ rest ∧ ((framed frames).length ≤ length → rest = []) ∧
      messages ((framed frames).take length) = read ∧
      remembered last ((framed frames).take length) = lastId last read := by
  rw [messages, remembered, if_neg (head_framed frames length)]
  exact cut_frames clean length last []

variable {ε : Type} {serve : Option Str → Except ε Str}

/-- What a server answers that streams `feed`: all of it, or what stands behind the message whose id
the request has. -/
structure Resumes (serve : Option Str → Except ε Str) (feed : List Message) : Prop where
  clean : ∀ m ∈ feed, m.Framed
  named : ∀ m ∈ feed, m.lastEventId ≠ []
  first : serve none = .ok (framed feed)
  behind : ∀ m earlier later, feed = earlier ++ m :: later →
    serve (some m.lastEventId) = .ok (framed later)

structure Source.Reads (serve : Option Str → Except ε Str) (feed : List Message)
    (source : Source) (rest : List Message) : Prop where
  opened : source.closed = false
  split : feed = source.received ++ rest
  served : serve source.header = .ok (framed rest)

theorem Source.opened_reads (resumes : Resumes serve feed) : Source.opened.Reads serve feed feed :=
  ⟨rfl, rfl, resumes.first⟩

theorem Source.Reads.connect (resumes : Resumes serve feed) {source : Source} {rest : List Message}
    (reads : source.Reads serve feed rest) (length : Nat) :
    ∃ rest', (source.connect serve length).Reads serve feed rest' ∧ rest' <:+ rest ∧
      ((framed rest).length ≤ length → rest' = []) := by
  have clean : ∀ m ∈ rest, m.Framed := fun m member => resumes.clean m (by
    rw [reads.split]
    exact List.mem_append_right _ member)
  obtain ⟨read, rest', split, all, got, left⟩ := cut_framed clean length source.lastEventId
  have taken : source.connect serve length =
      { source with
        lastEventId := lastId source.lastEventId read
        received := source.received ++ read } := by
    simp only [Source.connect, reads.opened, reads.served, got, left, Bool.false_eq_true, if_false]
  have joined : feed = source.received ++ read ++ rest' := by
    rw [reads.split, split, List.append_assoc]
  refine ⟨rest', ?_, ⟨read, split.symm⟩, all⟩
  rw [taken]
  refine ⟨reads.opened, joined, ?_⟩
  induction read using List.reverseRecOn with
  | nil =>
      rw [split] at reads
      exact reads.served
  | append_singleton read m _ =>
      have place : feed = source.received ++ read ++ m :: rest' := by
        rw [joined]
        simp
      have member : m ∈ feed := by
        rw [place]
        exact List.mem_append_right _ List.mem_cons_self
      have id : lastId source.lastEventId (read ++ [m]) = m.lastEventId := by simp [lastId]
      simp only [Source.header, id, if_neg (resumes.named m member)]
      exact resumes.behind m _ _ place

/-- However its connections are cut, a source receives the feed in order, nothing twice and nothing
left out; all of it once one connection is long enough. -/
theorem Source.resumed (resumes : Resumes serve feed) (cuts : List Nat) :
    let source := cuts.foldl (Source.connect serve) .opened
    source.closed = false ∧ source.received <+: feed ∧
      ((∃ length ∈ cuts, (framed feed).length ≤ length) → source.received = feed) := by
  suffices reached : ∃ rest, (cuts.foldl (Source.connect serve) .opened).Reads serve feed rest ∧
      rest <:+ feed ∧ ((∃ length ∈ cuts, (framed feed).length ≤ length) → rest = []) by
    obtain ⟨rest, reads, _, all⟩ := reached
    refine ⟨reads.opened, ⟨rest, reads.split.symm⟩, fun long => ?_⟩
    have whole := reads.split
    rw [all long, List.append_nil] at whole
    exact whole.symm
  induction cuts using List.reverseRecOn with
  | nil => exact ⟨feed, Source.opened_reads resumes, List.suffix_rfl, by simp⟩
  | append_singleton cuts length ih =>
      obtain ⟨rest, reads, behind, all⟩ := ih
      rw [List.foldl_append]
      obtain ⟨rest', reads', later, ended⟩ := reads.connect resumes length
      refine ⟨rest', reads', later.trans behind, ?_⟩
      rintro ⟨long, member, enough⟩
      rcases List.mem_append.mp member with inner | final
      · have none_ := all ⟨long, inner, enough⟩
        rw [none_] at later
        exact List.suffix_nil.mp later
      · rw [List.mem_singleton.mp final] at enough
        obtain ⟨done, rfl⟩ := behind
        rw [framed_append, List.length_append] at enough
        exact ended (by omega)

end Resumed

end EventStream
