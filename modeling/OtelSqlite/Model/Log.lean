import OtelSqlite.Core.Command
import OtelSqlite.Model.Attribute

/-!
# Log records, scopes and resources

The model types that ingress hands to storage. The origin of a chunk is its resource
with the schema URL of its group; it is the origin type of the pipeline's messages.
-/

namespace OtelSqlite.Model

inductive Severity where
  | unspecified
  | trace | trace2 | trace3 | trace4
  | debug | debug2 | debug3 | debug4
  | info | info2 | info3 | info4
  | warn | warn2 | warn3 | warn4
  | error | error2 | error3 | error4
  | fatal | fatal2 | fatal3 | fatal4
  deriving DecidableEq, Repr

/-- The discriminant. -/
def Severity.toNat : Severity → Nat
  | .unspecified => 0
  | .trace => 1
  | .trace2 => 2
  | .trace3 => 3
  | .trace4 => 4
  | .debug => 5
  | .debug2 => 6
  | .debug3 => 7
  | .debug4 => 8
  | .info => 9
  | .info2 => 10
  | .info3 => 11
  | .info4 => 12
  | .warn => 13
  | .warn2 => 14
  | .warn3 => 15
  | .warn4 => 16
  | .error => 17
  | .error2 => 18
  | .error3 => 19
  | .error4 => 20
  | .fatal => 21
  | .fatal2 => 22
  | .fatal3 => 23
  | .fatal4 => 24

def Severity.fromU8 (value : UInt8) : Option Severity :=
  match value.toNat with
  | 0 => some .unspecified
  | 1 => some .trace
  | 2 => some .trace2
  | 3 => some .trace3
  | 4 => some .trace4
  | 5 => some .debug
  | 6 => some .debug2
  | 7 => some .debug3
  | 8 => some .debug4
  | 9 => some .info
  | 10 => some .info2
  | 11 => some .info3
  | 12 => some .info4
  | 13 => some .warn
  | 14 => some .warn2
  | 15 => some .warn3
  | 16 => some .warn4
  | 17 => some .error
  | 18 => some .error2
  | 19 => some .error3
  | 20 => some .error4
  | 21 => some .fatal
  | 22 => some .fatal2
  | 23 => some .fatal3
  | 24 => some .fatal4
  | _ => none

/-- The scope of a `ScopeLogs` group, with its attributes already rendered. -/
structure LogScope where
  name : String
  version : String
  schemaUrl : String
  attributesJson : String
  deriving DecidableEq, Repr

def LogScope.new (formats : Formats) (name version : String) (attributes : List Attribute)
    (schemaUrl : String) : LogScope :=
  { name, version, schemaUrl, attributesJson := writeAttributesJson formats attributes }

structure LogRecord where
  timeUnixNano : Int64
  observedTimeUnixNano : Int64
  severityNumber : Severity
  severityText : String
  traceId : Vector UInt8 16
  spanId : Vector UInt8 8
  body : String
  bodyJson : Option String
  attributes : List Attribute
  droppedAttributesCount : UInt32
  flags : UInt32
  eventName : String
  scope : LogScope

def LogRecord.hasTrace (record : LogRecord) : Bool := record.traceId ≠ Vector.replicate 16 0

def LogRecord.hasSpan (record : LogRecord) : Bool := record.spanId ≠ Vector.replicate 8 0

structure Resource where
  id : String
  attributes : List Attribute
  schemaUrl : String

def AttributeValue.asStr : AttributeValue → Option String
  | .string value => some value
  | _ => none

/-- The value of the last attribute with the key. -/
def Resource.get (resource : Resource) (key : String) : Option AttributeValue :=
  (resource.attributes.reverse.find? fun a => a.key = key).map Attribute.value

def Resource.serviceName (resource : Resource) : String :=
  ((resource.get "service.name").bind AttributeValue.asStr).getD ""

def Resource.hostName (resource : Resource) : String :=
  ((resource.get "host.name").bind AttributeValue.asStr).getD ""

structure BatchOrigin where
  resource : Option Resource
  schemaUrl : String

abbrev LogChunk := Core.LogChunk BatchOrigin LogRecord

abbrev IngestMessage := Core.IngestMessage BatchOrigin LogRecord

end OtelSqlite.Model
