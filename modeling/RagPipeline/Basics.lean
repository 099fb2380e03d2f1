import Mathlib.Data.Rat.Defs
import RagPipeline.Lib.Coroutine

namespace RagPipeline

/-- The exceptions the pipeline tells apart, and every other one. -/
inductive PyExc where
  | chunkTableNotFound (tableName : String)
  | embeddingUnavailable (msg : String)
  | amqpError (msg : String)
  | other (msg : String)
deriving DecidableEq

/-- `str(exc)`. -/
def PyExc.str : PyExc → String
  | chunkTableNotFound t => t
  | embeddingUnavailable m => m
  | amqpError m => m
  | other m => m

/-- A Python object: two of them may be equal and still not be the same one. -/
structure Obj (α : Type) where
  id : ℕ
  val : α
deriving DecidableEq

/-- `x in l` for a list of objects compares values, not identities. -/
def Obj.isIn {α : Type} [DecidableEq α] (x : Obj α) (l : List (Obj α)) : Bool :=
  l.any fun y => y.val = x.val

/-- An embedding vector or a list of scores: finite floats are rationals. -/
abbrev Vec := List ℚ

/-- A `datetime`: its instant in microseconds since 1970, and whether it carries a zone. -/
structure DateTime where
  instant : ℤ
  aware : Bool
deriving DecidableEq

/-- `a >= b` raises when only one of the two carries a zone. -/
def DateTime.ge (a b : DateTime) : Except PyExc Bool :=
  if a.aware = b.aware then .ok (b.instant ≤ a.instant)
  else .error (.other "can't compare offset-naive and offset-aware datetimes")

/-- What a column of type `INTEGER` takes. -/
def isInteger (i : ℤ) : Bool := -2147483648 ≤ i && i ≤ 2147483647

/-- What a column of type `TEXT` takes: every character but NUL. -/
def isText (s : String) : Bool := s.toList.all fun c => c.toNat ≠ 0

/-- What a column of type `TIMESTAMPTZ` is sent: an instant of the years 1 to 9999. -/
def isTimestamp (t : DateTime) : Bool :=
  -62135596800000000 ≤ t.instant && t.instant < 253402300800000000

/-- The string when it is there and not empty, as a Python condition reads it. -/
def truthy (s : Option String) : Option String := s.filter (· ≠ "")

theorem truthy_some {s : String} (h : s ≠ "") : truthy (some s) = some s := by
  simp [truthy, Option.filter, h]

/-- What `str.strip` takes off: the characters for which `str.isspace` holds. -/
def isSpace (c : Char) : Bool :=
  let n := c.toNat
  (9 ≤ n && n ≤ 13) || (28 ≤ n && n ≤ 32) || n = 0x85 || n = 0xA0 || n = 0x1680 ||
    (0x2000 ≤ n && n ≤ 0x200A) || n = 0x2028 || n = 0x2029 || n = 0x202F || n = 0x205F || n = 0x3000

/-- `s.strip()`. -/
def strip (s : String) : String :=
  String.ofList ((s.toList.dropWhile isSpace).reverse.dropWhile isSpace).reverse

/-- The ids of the span a `with tracer.start_as_current_span` block runs in. -/
structure SpanIds where
  traceId : String
  spanId : String
deriving DecidableEq

/-- `current_trace_ids`: no ids when tracing is off. -/
def currentTraceIds (span : Option SpanIds) : Option String × Option String :=
  (span.map SpanIds.traceId, span.map SpanIds.spanId)

def propagateTrace (span : Option SpanIds) (fallbackTraceId : Option String) :
    Option String × Option String :=
  match currentTraceIds span with
  | (some t, s) => (some t, s)
  | (none, _) => (fallbackTraceId, none)

end RagPipeline
