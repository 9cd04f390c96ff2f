import TplBackend.Library.Text

/-! The event streams that an `EventSource` reads. -/

namespace EventStream

open Text

/-- The lines of a stream, each ended by a line feed, a carriage return or both, in the order they
end. `cr` tells that a carriage return has just ended one; what no line end follows is left out. -/
def linesFrom : Bool → Str → Str → List Str
  | _, _, [] => []
  | cr, line, c :: rest =>
      if c = '\r' then line :: linesFrom true [] rest
      else if c = '\n' then
        if cr then linesFrom false [] rest else line :: linesFrom false [] rest
      else linesFrom false (line ++ [c]) rest

structure Message where
  type : Str
  data : Str
  lastEventId : Str
  deriving DecidableEq

structure Buffers where
  data : Str
  type : Str
  lastEventId : Str

def Buffers.empty : Buffers := ⟨[], [], []⟩

/-- One field; `retry` and unknown names change no buffer. -/
def Buffers.field (buffers : Buffers) (name value : Str) : Buffers :=
  if name = ['e', 'v', 'e', 'n', 't'] then { buffers with type := value }
  else if name = ['d', 'a', 't', 'a'] then { buffers with data := buffers.data ++ value ++ ['\n'] }
  else if name = ['i', 'd'] ∧ '\x00' ∉ value then { buffers with lastEventId := value }
  else buffers

def Buffers.line (buffers : Buffers) (line : Str) : Buffers :=
  if line.head? = some ':' then buffers
  else if ':' ∈ line then
    let value := after ':' line
    buffers.field (before ':' line) (if value.head? = some ' ' then value.tail else value)
  else buffers.field line []

def Buffers.message (buffers : Buffers) : Option Message :=
  if buffers.data = [] then none
  else some
    { type := if buffers.type = [] then "message".toList else buffers.type
      data := if buffers.data.getLast? = some '\n' then buffers.data.dropLast else buffers.data
      lastEventId := buffers.lastEventId }

def dispatch : Buffers → List Str → List Message
  | _, [] => []
  | buffers, [] :: lines =>
      buffers.message.toList ++ dispatch { buffers with data := [], type := [] } lines
  | buffers, line :: lines => dispatch (buffers.line line) lines

/-- The messages that an `EventSource` dispatches for a stream. -/
def messages (stream : Str) : List Message :=
  dispatch .empty (linesFrom false [] (if stream.head? = some '\ufeff' then stream.tail else stream))

def OneLine (text : Str) : Prop := ∀ c ∈ text, c ≠ '\r' ∧ c ≠ '\n'

theorem linesFrom_append {line : Str} (plain : OneLine line) (begun rest : Str) :
    linesFrom false begun (line ++ '\n' :: rest) = (begun ++ line) :: linesFrom false [] rest := by
  induction line generalizing begun with
  | nil => simp [linesFrom]
  | cons c line ih =>
      obtain ⟨cr, lf⟩ := plain c List.mem_cons_self
      rw [List.cons_append, linesFrom, if_neg cr, if_neg lf,
        ih fun d member => plain d (List.mem_cons_of_mem _ member)]
      simp

theorem line_field (buffers : Buffers) {name : Str} (named : name ≠ []) (free : ':' ∉ name)
    (value : Str) : buffers.line (name ++ ':' :: ' ' :: value) = buffers.field name value := by
  have head : (name ++ ':' :: ' ' :: value).head? ≠ some ':' := by
    cases name with
    | nil => exact absurd rfl named
    | cons c name => exact fun same => free (by simp [Option.some.inj same])
  have name_ : before ':' (name ++ ':' :: ' ' :: value) = name := by
    rw [before_append_of_not_mem free]
    simp [before]
  rw [Buffers.line, if_neg head, if_pos (by simp), after_append_of_not_mem free, name_]
  simp

theorem dispatch_field (buffers : Buffers) {name : Str} (named : name ≠ []) (free : ':' ∉ name)
    (value : Str) (lines : List Str) :
    dispatch buffers ((name ++ ':' :: ' ' :: value) :: lines) =
      dispatch (buffers.field name value) lines := by
  obtain ⟨c, rest, shape⟩ := List.exists_cons_of_ne_nil
    (List.append_ne_nil_of_left_ne_nil named (':' :: ' ' :: value))
  rw [shape, dispatch, ← shape, line_field buffers named free]
  exact List.cons_ne_nil c rest

def frame (id type data : Str) : Str :=
  ['i', 'd', ':', ' '] ++ id ++ ['\n', 'e', 'v', 'e', 'n', 't', ':', ' '] ++ type ++
    ['\n', 'd', 'a', 't', 'a', ':', ' '] ++ data ++ ['\n', '\n']

section Frames

variable {id type data rest : Str}

theorem linesFrom_frame (ids : OneLine id) (types : OneLine type) (datas : OneLine data) :
    linesFrom false [] (frame id type data ++ rest) =
      (['i', 'd'] ++ ':' :: ' ' :: id) :: (['e', 'v', 'e', 'n', 't'] ++ ':' :: ' ' :: type) ::
        (['d', 'a', 't', 'a'] ++ ':' :: ' ' :: data) :: [] :: linesFrom false [] rest := by
  have line {name value : Str} (named : OneLine name) (valued : OneLine value) :
      OneLine (name ++ ':' :: ' ' :: value) := by
    intro c member
    simp only [List.mem_append, List.mem_cons] at member
    rcases member with mine | rfl | rfl | mine
    · exact named c mine
    · decide
    · decide
    · exact valued c mine
  have spelled : frame id type data ++ rest =
      (['i', 'd'] ++ ':' :: ' ' :: id) ++ '\n' ::
        ((['e', 'v', 'e', 'n', 't'] ++ ':' :: ' ' :: type) ++ '\n' ::
          ((['d', 'a', 't', 'a'] ++ ':' :: ' ' :: data) ++ '\n' :: ([] ++ '\n' :: rest))) := by
    simp [frame]
  rw [spelled, linesFrom_append (line (by simp [OneLine]) ids),
    linesFrom_append (line (by simp [OneLine]) types),
    linesFrom_append (line (by simp [OneLine]) datas), linesFrom_append (by simp [OneLine])]
  simp only [List.nil_append]

theorem dispatch_frame (ids : OneLine id) (types : OneLine type) (datas : OneLine data)
    (typed : type ≠ []) (identified : '\x00' ∉ id) (last : Str) :
    dispatch ⟨[], [], last⟩ (linesFrom false [] (frame id type data ++ rest)) =
      ⟨type, data, id⟩ :: dispatch ⟨[], [], id⟩ (linesFrom false [] rest) := by
  rw [linesFrom_frame ids types datas, dispatch_field _ (by decide) (by decide),
    dispatch_field _ (by decide) (by decide), dispatch_field _ (by decide) (by decide), dispatch]
  simp [Buffers.field, Buffers.message, identified, typed]

theorem dispatch_frames {frames : List Message}
    (clean : ∀ m ∈ frames, OneLine m.lastEventId ∧ OneLine m.type ∧ OneLine m.data ∧ m.type ≠ [] ∧
      '\x00' ∉ m.lastEventId) (last : Str) :
    dispatch ⟨[], [], last⟩
        (linesFrom false [] (frames.flatMap fun m => frame m.lastEventId m.type m.data)) = frames := by
  induction frames generalizing last with
  | nil => rfl
  | cons m frames ih =>
      obtain ⟨ids, types, datas, typed, identified⟩ := clean m List.mem_cons_self
      rw [List.flatMap_cons, dispatch_frame ids types datas typed identified,
        ih fun other member => clean other (List.mem_cons_of_mem _ member)]

theorem messages_frames {frames : List Message}
    (clean : ∀ m ∈ frames, OneLine m.lastEventId ∧ OneLine m.type ∧ OneLine m.data ∧ m.type ≠ [] ∧
      '\x00' ∉ m.lastEventId) :
    messages (frames.flatMap fun m => frame m.lastEventId m.type m.data) = frames := by
  have start : (frames.flatMap fun m => frame m.lastEventId m.type m.data).head? ≠
      some '\ufeff' := by
    cases frames <;> simp [frame]
  rw [messages, if_neg start]
  exact dispatch_frames clean []

end Frames

end EventStream
