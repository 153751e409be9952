import ModbusMaster.OpenRequest
import ModbusMaster.Point.Value
import ModbusMaster.Transaction
import ModbusMaster.Json.Writer
import ModbusMaster.Time.Civil
namespace ModbusMaster

inductive ReportStatus where
  | good
  | exception
  | timeout
  | noResponse
  | failed
  deriving Repr, DecidableEq, Inhabited

def ReportStatus.name : ReportStatus → String
  | good => "good"
  | exception => "exception"
  | timeout => "timeout"
  | noResponse => "no_response"
  | failed => "failed"

-- What is published of a point: the value of a read, or why there is none.
structure Report where
  point : Point
  version : Option String
  appSeq : Option String
  topic : Option String
  value : String
  scaled : Option Scaled
  status : ReportStatus
  exceptionCode : UInt8
  error : Option String
  instant : Time.Instant
  transaction : UInt16
  isOnDemand : Bool
  deriving Repr, DecidableEq

namespace Report

def blank (p : Point) (status : ReportStatus) (now : Time.Instant) : Report :=
  ⟨p,none,none,none,"",none,status,0,none,now,0,false⟩

def ofRequest (r : OpenRequest) (status : ReportStatus) (now : Time.Instant) : Report :=
  {blank r.point status now with version:=r.version,appSeq:=r.appSeq,topic:=r.topic,isOnDemand:=r.isOnDemand}

-- A cycle that is skipped because the read before it is still unanswered.
def noResponse (p : Point) (now : Time.Instant) : Report :=
  {blank p .noResponse now with error:=some "previous request still awaiting response"}

def rejected (r : OpenRequest) (status : CallStatus) (now : Time.Instant) : Report :=
  {ofRequest r .failed now with error:=some status.text}

-- The result of a finished request. A write echoes its request and has no value;
-- a value that cannot be scaled is published as it is.
def ofCompletion (r : OpenRequest) (c : Completion) : Report :=
  let base := {ofRequest r .good c.instant with transaction:=c.id}
  match c.outcome with
  | .success =>
    if c.function.isWrite then base else
    let value := r.point.format c.data
    {base with value:=value,scaled:=(Scaled.ofHex value r.point.dataType r.point.scale r.point.width).toOption}
  | .exception code =>
    {base with status:=.exception,exceptionCode:=code,error:=some (Fault.exception c.function.code code).message}
  | .timeout => {base with status:=.timeout,error:=some c.outcome.text}
  | _ => {base with status:=.failed,error:=some c.outcome.text}

def scaledJson : Scaled → Json
  | .bool b => .bool b
  | .int i => .int i
  | .uint n => .int n
  | .float x => .float x
  | .text s => .text s

def toJson (r : Report) : Json :=
  let present (name : String) (s : Option String) : List (String × Json) :=
    match s with
    | some s => [(name,.text s)]
    | none => []
  .object (
    [("point",.text r.point.key),("wellhead",.text r.point.wellhead),("metric",.text r.point.metric)] ++
    present "version" r.version ++ present "app_seq" r.appSeq ++ present "source_topic" r.topic ++
    [("value",.text r.value),("scaled_value",(r.scaled.map scaledJson).getD .null),
      ("data_type",.text r.point.dataType.name),("status",.text r.status.name),
      ("exception_code",.int r.exceptionCode.toNat)] ++
    present "error" r.error ++
    [("timestamp",.text r.instant.text),("usec",.int r.instant.usec),("transaction_id",.int r.transaction.toNat),
      ("is_on_demand",.bool r.isOnDemand)])

def line (r : Report) : String := r.toJson.write

end Report
end ModbusMaster
