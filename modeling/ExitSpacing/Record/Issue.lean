/-! What can be wrong with a loosely given record: one issue per field, with the
word for its kind and the sentence shown for it. -/
namespace ExitSpacing

inductive Problem where
  | missing
  | textType
  | integerType
  | integerText
  | fraction
  | booleanType
  | booleanValue
  | negative
  | notPositive
  | policy
  | listType
  | recordType
  | frozen
  deriving DecidableEq, Repr

namespace Problem

def code : Problem → String
  | .missing => "missing"
  | .textType => "string_type"
  | .integerType => "int_type"
  | .integerText => "int_parsing"
  | .fraction => "int_from_float"
  | .booleanType => "bool_type"
  | .booleanValue => "bool_parsing"
  | .negative => "greater_than_equal"
  | .notPositive => "greater_than"
  | .policy => "literal_error"
  | .listType => "tuple_type"
  | .recordType => "model_type"
  | .frozen => "frozen_instance"

def message : Problem → String
  | .missing => "Field required"
  | .textType => "Input should be a valid string"
  | .integerType => "Input should be a valid integer"
  | .integerText => "Input should be a valid integer, unable to parse string as an integer"
  | .fraction => "Input should be a valid integer, got a number with a fractional part"
  | .booleanType => "Input should be a valid boolean"
  | .booleanValue => "Input should be a valid boolean, unable to interpret input"
  | .negative => "Input should be greater than or equal to 0"
  | .notPositive => "Input should be greater than 0"
  | .policy => "Input should be 'lines' or 'statements'"
  | .listType => "Input should be a valid tuple"
  | .recordType => "Input should be a valid dictionary or instance of ChangeEntry"
  | .frozen => "Instance is frozen"

end Problem

/-- A problem and the way to the field that has it, outermost name first. -/
structure Issue where
  path : List String
  problem : Problem
  deriving DecidableEq, Repr

namespace Issue

def field (i : Issue) : String := ".".intercalate i.path

def under (name : String) (i : Issue) : Issue := { i with path := name :: i.path }

end Issue
end ExitSpacing
