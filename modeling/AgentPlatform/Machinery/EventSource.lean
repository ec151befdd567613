import AgentPlatform.Machinery.Text

/-!
# Machinery/EventSource — reading an event stream

How a browser reads `text/event-stream`: the stream is cut into lines at `\n`, `\r` and `\r\n`, a
line is a field or a comment, and an empty line dispatches what the fields before it have gathered.
A line, and a block of fields, that the stream leaves unfinished is dropped.

* `dispatched_mono` — more of the stream dispatches more events, and none of those before changes.
* `dispatched_blocks` — a stream of blocks, each an event or a comment, dispatches its events in
  order.
-/

namespace EventSource

/-- An event: its type and its data. -/
abbrev Dispatch := Text × Text

/-- The buffers a block of fields fills. -/
structure Buffers where
  type : Text
  data : Text
  deriving DecidableEq

def Buffers.empty : Buffers := ⟨[], []⟩

/-- The finished lines of a stream, behind the beginning of the first. -/
def finishedLines (line : Text) : Text → List Text
  | [] => []
  | '\r' :: '\n' :: t => line :: finishedLines [] t
  | '\r' :: t => line :: finishedLines [] t
  | '\n' :: t => line :: finishedLines [] t
  | c :: t => finishedLines (line ++ [c]) t

/-- What stands behind the colon, less a space. -/
def fieldValue (t : Text) : Text :=
  match t.dropWhile (· ≠ ':') with
  | ':' :: ' ' :: v => v
  | ':' :: v => v
  | _ => []

def eventName : Text := ['e', 'v', 'e', 'n', 't']

def dataName : Text := ['d', 'a', 't', 'a']

/-- The type of an event that has no `event` field. -/
def defaultType : Text := ['m', 'e', 's', 's', 'a', 'g', 'e']

/-- A field is put into its buffer; `id` and `retry` concern reconnections only, and the name of a
comment is empty. -/
def Buffers.field (b : Buffers) (line : Text) : Buffers :=
  let name := line.takeWhile (· ≠ ':')
  if name = eventName then { b with type := fieldValue line }
  else if name = dataName then { b with data := b.data ++ fieldValue line ++ ['\n'] }
  else b

/-- The event an empty line dispatches, if a `data` field came before it. -/
def Buffers.dispatch? (b : Buffers) : Option Dispatch :=
  if b.data = [] then none
  else some (if b.type = [] then defaultType else b.type, b.data.dropLast)

/-- The events that lines dispatch. -/
def interpret (b : Buffers) : List Text → List Dispatch
  | [] => []
  | [] :: lines => b.dispatch?.toList ++ interpret .empty lines
  | line :: lines => interpret (b.field line) lines

/-- **The events of a stream.** -/
def dispatched (stream : Text) : List Dispatch := interpret .empty (finishedLines [] stream)

/-! ## More of a stream -/

theorem finishedLines_mono (line : Text) {s t : Text}
    (h : s <+: t) : finishedLines line s <+: finishedLines line t := by
  obtain ⟨u, rfl⟩ := h
  fun_induction finishedLines line s with
  | case1 => exact List.nil_prefix
  | case2 line s ih => exact List.prefix_cons_inj _ |>.mpr ih
  | case3 line s hnext ih =>
    cases s with
    | nil =>
      -- the line is ended, whether the rest begins with a line feed or not
      have hhead : ∃ lines, finishedLines line ('\r' :: u) = line :: lines := by
        rw [finishedLines.eq_def]
        split
        · rename_i h
          cases h
        · exact ⟨_, rfl⟩
        · exact ⟨_, rfl⟩
        · exact ⟨_, rfl⟩
        · rename_i hreturn _ h
          exact absurd (List.cons.inj h).1.symm hreturn
      obtain ⟨lines, hlines⟩ := hhead
      rw [List.cons_append, List.nil_append, hlines]
      exact List.prefix_cons_inj _ |>.mpr List.nil_prefix
    | cons c s =>
      rw [List.cons_append, List.cons_append, finishedLines]
      · exact List.prefix_cons_inj _ |>.mpr ih
      · intro t ht
        exact hnext s (by rw [(List.cons.inj ht).1])
  | case4 line s ih => exact List.prefix_cons_inj _ |>.mpr ih
  | case5 line c s h1 h2 h3 ih =>
    rw [List.cons_append, finishedLines]
    · exact ih
    all_goals simp_all

theorem interpret_mono (b : Buffers) {lines lines' : List Text} (h : lines <+: lines') :
    interpret b lines <+: interpret b lines' := by
  obtain ⟨more, rfl⟩ := h
  fun_induction interpret b lines with
  | case1 => exact List.nil_prefix
  | case2 b lines ih =>
    rw [List.cons_append, interpret]
    exact (List.prefix_append_right_inj _).mpr ih
  | case3 b line lines hline ih =>
    rw [List.cons_append, interpret]
    · exact ih
    · exact hline

/-- **More of a stream, more of its events.** -/
theorem dispatched_mono {s t : Text} (h : s <+: t) : dispatched s <+: dispatched t :=
  interpret_mono _ (finishedLines_mono _ h)

/-! ## A stream of blocks -/

/-- No character of a line ends it. -/
def OneLine (t : Text) : Prop := ∀ c ∈ t, c ≠ '\n' ∧ c ≠ '\r'

theorem oneLine_eventName : OneLine eventName :=
  fun c hc => of_decide_eq_true
    (List.all_eq_true.mp (by rfl : eventName.all fun c => c ≠ '\n' ∧ c ≠ '\r') c hc)

theorem oneLine_dataName : OneLine dataName :=
  fun c hc => of_decide_eq_true
    (List.all_eq_true.mp (by rfl : dataName.all fun c => c ≠ '\n' ∧ c ≠ '\r') c hc)

theorem finishedLines_line {line : Text} (h : OneLine line) (read rest : Text) :
    finishedLines read (line ++ '\n' :: rest) = (read ++ line) :: finishedLines [] rest := by
  induction line generalizing read with
  | nil => rw [List.nil_append, List.append_nil, finishedLines]
  | cons c line ih =>
    obtain ⟨⟨hfeed, hreturn⟩, hline⟩ := List.forall_mem_cons.mp h
    rw [List.cons_append, finishedLines, ih hline, List.append_assoc, List.singleton_append]
    all_goals simp [hfeed, hreturn]

/-- A field, or with no name a comment. -/
def fieldLine (name value : Text) : Text := name ++ ':' :: ' ' :: value

theorem OneLine.fieldLine {name value : Text} (hname : OneLine name) (hvalue : OneLine value) :
    OneLine (fieldLine name value) :=
  List.forall_mem_append.mpr ⟨hname,
    List.forall_mem_cons.mpr ⟨by decide, List.forall_mem_cons.mpr ⟨by decide, hvalue⟩⟩⟩

theorem field_fieldLine {name : Text} (hname : ':' ∉ name) (b : Buffers) (value : Text) :
    b.field (fieldLine name value) =
      if name = eventName then { b with type := value }
      else if name = dataName then { b with data := b.data ++ value ++ ['\n'] }
      else b := by
  have hplain : ∀ c ∈ name, decide (c ≠ ':') = true := fun c hc => by
    rw [decide_eq_true_iff]
    rintro rfl
    exact hname hc
  have htake : (fieldLine name value).takeWhile (· ≠ ':') = name := by
    rw [fieldLine, List.takeWhile_append_of_pos hplain]
    simp
  have hvalue : fieldValue (fieldLine name value) = value := by
    rw [fieldValue, fieldLine, List.dropWhile_append_of_pos hplain]
    simp
  simp only [Buffers.field, htake, hvalue]

/-- What a server sends: an event, or a comment. -/
inductive Block where
  | event (type data : Text)
  | comment (text : Text)

namespace Block

/-- The text of a block. -/
def text : Block → Text
  | event type data => fieldLine eventName type ++ '\n' :: (fieldLine dataName data ++ ['\n', '\n'])
  | comment text => fieldLine [] text ++ ['\n', '\n']

/-- The parts of a block are lines, and a type is not empty. -/
def Plain : Block → Prop
  | event type data => OneLine type ∧ type ≠ [] ∧ OneLine data
  | comment text => OneLine text

def event? : Block → Option Dispatch
  | event type data => some (type, data)
  | comment _ => none

end Block

theorem fieldLine_ne_nil (name value : Text) : fieldLine name value ≠ [] :=
  List.append_ne_nil_of_right_ne_nil _ (List.cons_ne_nil _ _)

theorem dispatched_cons {b : Block} (h : b.Plain) (rest : Text) :
    dispatched (b.text ++ rest) = b.event?.toList ++ dispatched rest := by
  have hnil : OneLine [] := fun _ h => nomatch h
  cases b with
  | event type data =>
    obtain ⟨htype, hne, hdata⟩ := h
    have htext : (Block.event type data).text ++ rest = fieldLine eventName type ++ '\n' ::
        (fieldLine dataName data ++ '\n' :: ([] ++ '\n' :: rest)) := by
      simp [Block.text]
    have hevent : OneLine (fieldLine eventName type) := .fieldLine oneLine_eventName htype
    have hfield : OneLine (fieldLine dataName data) := .fieldLine oneLine_dataName hdata
    rw [dispatched, htext, finishedLines_line hevent, finishedLines_line hfield,
      finishedLines_line hnil, List.nil_append, List.nil_append, List.nil_append, interpret,
      interpret, interpret, field_fieldLine (by decide), field_fieldLine (by decide), if_pos rfl,
      if_neg (by decide), if_pos rfl]
    · simp [Buffers.dispatch?, Buffers.empty, Block.event?, hne, dispatched]
    all_goals exact fieldLine_ne_nil _ _
  | comment text =>
    have htext : (Block.comment text).text ++ rest = fieldLine [] text ++ '\n'
        :: ([] ++ '\n' :: rest) := by
      simp [Block.text]
    rw [dispatched, htext, finishedLines_line (.fieldLine hnil h), finishedLines_line hnil,
      List.nil_append, List.nil_append, interpret, interpret, field_fieldLine List.not_mem_nil,
      if_neg (by decide), if_neg (by decide)]
    · rfl
    · exact fieldLine_ne_nil _ _

/-- **A stream of blocks dispatches its events**, and the unfinished block behind them none. -/
theorem dispatched_blocks {blocks : List Block} (h : ∀ b ∈ blocks, b.Plain) (rest : Text) :
    dispatched (blocks.flatMap Block.text ++ rest) = blocks.filterMap Block.event?
      ++ dispatched rest := by
  induction blocks with
  | nil => rfl
  | cons b blocks ih =>
    obtain ⟨hb, hblocks⟩ := List.forall_mem_cons.mp h
    rw [List.flatMap_cons, List.append_assoc, dispatched_cons hb, ih hblocks, List.filterMap_cons]
    cases b.event? <;> simp

end EventSource
