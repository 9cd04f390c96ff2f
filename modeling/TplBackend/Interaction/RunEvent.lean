import TplBackend.Library.JsonReader
import TplBackend.Library.Url
import TplBackend.Outbox.NotBefore

/-! The events of a run as the browser contract has them. -/

namespace TplBackend.Interaction

open JsonText Text Url

structure UUID where
  int : Nat
  int_lt : int < 2 ^ 128

/-- `'%032x' % self.int` -/
def UUID.hex (id : UUID) : Str := (List.range 32).map fun i => hexDigit (id.int / 16 ^ (31 - i) % 16)

/-- `str(id)` -/
def UUID.text (id : UUID) : Str :=
  id.hex.take 8 ++ '-' :: ((id.hex.drop 8).take 4 ++ '-' :: ((id.hex.drop 12).take 4 ++
    '-' :: ((id.hex.drop 16).take 4 ++ '-' :: id.hex.drop 20)))

/-- `[0-9a-fA-F-]` -/
def isUUIDChar (c : Char) : Bool := (hexValue c).isSome || c == '-'

theorem UUID.text_length (id : UUID) : id.text.length = 36 := by
  simp [UUID.text, UUID.hex]

theorem UUID.text_chars (id : UUID) : ∀ c ∈ id.text, isUUIDChar c = true := by
  have digits : ∀ c ∈ id.hex, isUUIDChar c = true := by
    intro c member
    obtain ⟨i, _, rfl⟩ := List.mem_map.mp member
    rw [isUUIDChar, hexValue_hexDigit (Nat.mod_lt _ (by decide))]
    rfl
  intro c member
  simp only [UUID.text, List.mem_append, List.mem_cons] at member
  rcases member with part | rfl | part | rfl | part | rfl | part | rfl | part
  · exact digits c (List.mem_of_mem_take part)
  · rfl
  · exact digits c (List.mem_of_mem_drop (List.mem_of_mem_take part))
  · rfl
  · exact digits c (List.mem_of_mem_drop (List.mem_of_mem_take part))
  · rfl
  · exact digits c (List.mem_of_mem_drop (List.mem_of_mem_take part))
  · rfl
  · exact digits c (List.mem_of_mem_drop part)

def Sized (least most : Nat) (text : Str) : Prop := least ≤ text.length ∧ text.length ≤ most

def citationsPath : Str := "/api/web/v1/citations/".toList

def sourcePart : Str := "/source".toList

def citationSource (evidenceId : Str) : Str := citationsPath ++ evidenceId ++ sourcePart

/-- `^/api/web/v1/citations/[0-9a-fA-F-]{36}/source$` -/
def isSourceHref (href : Str) : Prop :=
  ∃ evidenceId : Str, evidenceId.length = 36 ∧ evidenceId.all isUUIDChar ∧
    href = citationSource evidenceId

/-- `^[a-f0-9]{64}$` -/
def isContentHash (hash : Str) : Prop :=
  hash.length = 64 ∧ hash.all fun c => isDigit c || ('a' ≤ c && c ≤ 'f')

structure BrowserCitation where
  evidenceId : UUID
  knowledgeDocumentId : UUID
  knowledgeDocumentVersionId : UUID
  chunkId : UUID
  title : Option Str
  quote : Str
  sourceDocumentId : UUID
  sourceDocumentVersionId : UUID
  contentHash : Str
  sourceHref : Str
  title_sized : ∀ text ∈ title, text.length ≤ 4096
  quote_sized : Sized 1 1000 quote
  contentHash_pattern : isContentHash contentHash
  sourceHref_sized : Sized 1 160 sourceHref
  sourceHref_pattern : isSourceHref sourceHref
  source_matches_evidence :
    asciiLower sourceHref = asciiLower (citationSource evidenceId.text)

theorem citationSource_valid (id : UUID) :
    Sized 1 160 (citationSource id.text) ∧ isSourceHref (citationSource id.text) := by
  refine ⟨?_, id.text, id.text_length, List.all_eq_true.mpr id.text_chars, rfl⟩
  have before_ : citationsPath.length = 22 := by decide
  have behind : sourcePart.length = 7 := by decide
  simp [Sized, citationSource, id.text_length, before_, behind]

inductive ActionKind
  | confirmation
  | input

def ActionKind.text : ActionKind → Str
  | .confirmation => "confirmation".toList
  | .input => "input".toList

structure RequiredAction where
  actionId : UUID
  kind : ActionKind
  prompt : Str
  prompt_sized : Sized 1 2000 prompt

inductive RunStatus
  | queued
  | running
  | waitingForInput
  | succeeded
  | failed
  | cancelled

def RunStatus.text : RunStatus → Str
  | .queued => "queued".toList
  | .running => "running".toList
  | .waitingForInput => "waiting_for_input".toList
  | .succeeded => "succeeded".toList
  | .failed => "failed".toList
  | .cancelled => "cancelled".toList

structure EventBase where
  eventId : UUID
  runId : UUID
  sequenceNo : Int
  occurredAt : AwareDatetime
  sequenceNo_ge : 1 ≤ sequenceNo

structure StatusData where
  status : RunStatus

structure DeltaData where
  text : Str
  text_sized : Sized 1 4096 text

structure CitationData where
  citation : BrowserCitation

structure InputRequiredData where
  action : RequiredAction

structure CompletedData where
  summary : Str
  summary_sized : Sized 0 20000 summary

structure FailedData where
  code : Str
  message : Str
  code_sized : Sized 1 128 code
  message_sized : Sized 1 1000 message

inductive RunEvent
  | status (base : EventBase) (data : StatusData)
  | delta (base : EventBase) (data : DeltaData)
  | citation (base : EventBase) (data : CitationData)
  | inputRequired (base : EventBase) (data : InputRequiredData)
  | completed (base : EventBase) (data : CompletedData)
  | failed (base : EventBase) (data : FailedData)
  | heartbeat (base : EventBase)

def RunEvent.base : RunEvent → EventBase
  | .status base _ | .delta base _ | .citation base _ | .inputRequired base _
  | .completed base _ | .failed base _ | .heartbeat base => base

def RunEvent.type : RunEvent → Str
  | .status _ _ => "status".toList
  | .delta _ _ => "delta".toList
  | .citation _ _ => "citation".toList
  | .inputRequired _ _ => "input_required".toList
  | .completed _ _ => "completed".toList
  | .failed _ _ => "failed".toList
  | .heartbeat _ => "heartbeat".toList

/-! What `model_dump(mode="json")` gives, each field under its name in the order of declaration. -/

def BrowserCitation.dump (citation : BrowserCitation) : Value :=
  .obj
    [("contract_version".toList, .int 1),
      ("evidence_id".toList, .str citation.evidenceId.text),
      ("knowledge_document_id".toList, .str citation.knowledgeDocumentId.text),
      ("knowledge_document_version_id".toList, .str citation.knowledgeDocumentVersionId.text),
      ("chunk_id".toList, .str citation.chunkId.text),
      ("title".toList, citation.title.elim .null .str),
      ("quote".toList, .str citation.quote),
      ("source_document_id".toList, .str citation.sourceDocumentId.text),
      ("source_document_version_id".toList, .str citation.sourceDocumentVersionId.text),
      ("content_hash".toList, .str citation.contentHash),
      ("source_href".toList, .str citation.sourceHref)]

def RequiredAction.dump (action : RequiredAction) : Value :=
  .obj
    [("action_id".toList, .str action.actionId.text), ("kind".toList, .str action.kind.text),
      ("prompt".toList, .str action.prompt)]

def RunEvent.dumpData : RunEvent → Value
  | .status _ data => .obj [("status".toList, .str data.status.text)]
  | .delta _ data => .obj [("text".toList, .str data.text)]
  | .citation _ data => .obj [("citation".toList, data.citation.dump)]
  | .inputRequired _ data => .obj [("action".toList, data.action.dump)]
  | .completed _ data => .obj [("summary".toList, .str data.summary)]
  | .failed _ data =>
      .obj [("code".toList, .str data.code), ("message".toList, .str data.message)]
  | .heartbeat _ => .obj []

section Dump

-- The text that the validation library gives a timestamp.
variable (dateText : AwareDatetime → Str)

def RunEvent.dump (event : RunEvent) : Value :=
  .obj
    [("contract_version".toList, .int 1), ("event_id".toList, .str event.base.eventId.text),
      ("run_id".toList, .str event.base.runId.text),
      ("sequence_no".toList, .int event.base.sequenceNo),
      ("occurred_at".toList, .str (dateText event.base.occurredAt)),
      ("type".toList, .str event.type), ("data".toList, event.dumpData)]

theorem BrowserCitation.dump_exact (citation : BrowserCitation) : Exact citation.dump := by
  have title : Exact (citation.title.elim .null .str) := by
    cases citation.title with
    | none => exact .null
    | some text => exact .str text
  refine .obj (by simp only [List.map_cons, List.map_nil]; decide) ?_
  simp only [List.forall_mem_cons]
  exact ⟨.int 1, .str _, .str _, .str _, .str _, title, .str _, .str _, .str _, .str _, .str _,
    by simp⟩

theorem RequiredAction.dump_exact (action : RequiredAction) : Exact action.dump := by
  refine .obj (by simp only [List.map_cons, List.map_nil]; decide) ?_
  simp only [List.forall_mem_cons]
  exact ⟨.str _, .str _, .str _, by simp⟩

theorem RunEvent.dumpData_exact (event : RunEvent) : Exact event.dumpData := by
  have one {key : Str} {item : Value} (exact : Exact item) : Exact (.obj [(key, item)]) :=
    .obj (List.nodup_singleton key) (by simpa using exact)
  cases event with
  | status base data => exact one (.str _)
  | delta base data => exact one (.str _)
  | citation base data => exact one data.citation.dump_exact
  | inputRequired base data => exact one data.action.dump_exact
  | completed base data => exact one (.str _)
  | failed base data =>
      refine .obj (by simp only [List.map_cons, List.map_nil]; decide) ?_
      simp only [List.forall_mem_cons]
      exact ⟨.str _, .str _, by simp⟩
  | heartbeat base => exact .obj List.nodup_nil (by simp)

theorem RunEvent.dump_exact (event : RunEvent) : Exact (event.dump dateText) := by
  refine .obj (by simp only [List.map_cons, List.map_nil]; decide) ?_
  simp only [List.forall_mem_cons]
  exact ⟨.int 1, .str _, .str _, .int _, .str _, .str _, event.dumpData_exact, by simp⟩

end Dump

end TplBackend.Interaction
