/-
# ProcessorApi.WireTypes — a message of the contract as a type of the decoder

`Manifest` of `processorapi/v1/types.go` with the names of its JSON members. What is proved about decoding holds for
every such type; the other messages are left out.
-/
import BitAgent.Lib.JsonType

namespace BitAgent.ProcessorApi

open Lib

/-- `Identity`. -/
def identityType : GoType :=
  .record [("id", .string), ("version", .string), ("model_version", .string), ("policy_version", .string),
      ("artifact_digest", .string)]

/-- `Manifest`. -/
def manifestType : GoType :=
  .record [("contract", .string), ("processor", identityType), ("capabilities", .slice .string),
      ("configuration_schema", .rawMessage), ("qualification", .string)]

end BitAgent.ProcessorApi
