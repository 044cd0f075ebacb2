import ShellLine.Config
import ShellLine.Json.Document

/-! # Configurations in JSON

A configuration is read from an object, or from a list of its fields in order.
Fields may be missing, and members with other names are passed over. -/

namespace ShellLine.Config

open Json (Document ReadError)

/-- A name that must be one of the formats. -/
def formatOfName (s : Text) : Except ReadError OutputFormat :=
  match OutputFormat.ofName? s with
  | some f => .ok f
  | none => .error .mismatch

/-- A format: its name, or an object that gives null to its name. -/
def formatOfJson : Document → Except ReadError OutputFormat
  | .string items => do
    let name ← Document.orMalformed (Json.StringItem.text? items)
    formatOfName name
  | .object ((name, value) :: members) closed => do
    let name ← Document.orMalformed (Json.StringItem.text? name)
    let format ← formatOfName name
    match value with
    | .null => if closed && members.isEmpty then .ok format else .error .malformed
    | d => .error d.refusal
  | _ => .error .malformed

def variableDepth : Nat := 3

def variableOfJson (d : Document) : Except ReadError Value := do
  let j ← d.value (Document.maxDepth - variableDepth)
  match Value.ofJson? j with
  | some v => .ok v
  | none => .error .mismatch

/-- The variables of an object; the last value of a name counts. -/
def variablesOfMembers :
    List (List Json.StringItem × Document) → Bindings Value → Except ReadError (Bindings Value)
  | [], vars => .ok vars
  | (name, d) :: members, vars => do
    let name ← Document.orMalformed (Json.StringItem.text? name)
    let v ← variableOfJson d
    variablesOfMembers members (vars.insert name v)

def variablesOfJson : Document → Except ReadError (Bindings Value)
  | .object members closed => do
    let vars ← variablesOfMembers members .empty
    if closed then .ok vars else .error .malformed
  | d => .error d.refusal

def settingsFields : List (Document.RecordField Settings) :=
  [⟨"format".toList, fun d s => do return { s with format := ← formatOfJson d }⟩,
   ⟨"strict".toList, fun d s => do return { s with strict := ← d.asBool }⟩,
   ⟨"log_level".toList, fun d s => do return { s with logLevel := ← d.asText }⟩,
   ⟨"log_file".toList, fun d s => do return { s with logFile := ← d.asText }⟩]

def variablesFields : List (Document.RecordField Variables) :=
  [⟨"inherit_env".toList, fun d v => do return { v with inheritEnv := ← d.asBool }⟩,
   ⟨"vars".toList, fun d v => do return { v with vars := ← variablesOfJson d }⟩]

def fields : List (Document.RecordField Config) :=
  [⟨"settings".toList, fun d c => do
      return { c with settings := ← d.asRecord settingsFields defaultSettings }⟩,
   ⟨"context".toList, fun d c => do
      return { c with context := ← d.asRecord variablesFields defaultVariables }⟩]

def ofJsonText (s : Text) : Except ReadError Config :=
  Json.decode (fun d => d.asRecord fields default) s

end ShellLine.Config
