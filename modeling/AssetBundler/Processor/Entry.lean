import AssetBundler.Processor.Basic

/-!
# Processor entries

A processor is registered by an entry: a class, a function, a reference to what a module exports, something
that is registered already, or a mapping of an entry and its options. Whatever a module exports is an entry
in turn, and so is every value of a configuration, which spells references and mappings. An entry is
assigned a processor with options: those from outside take precedence over those of a mapping, and a
function stands among its own options.
-/

namespace AssetBundler

/-- The fields whose keys are texts. -/
def Value.Fields.texts (fields : Value.Fields) : Table String Value :=
  fields.filterMap fun field ↦ match field.1 with
    | .text key => some (key, field.2)
    | _ => none

/-- What an entry is registered as. -/
structure Assignment where
  spec : Spec
  /-- The processor is a function and not a class. -/
  isFunction : Bool

inductive Entry where
  | processor (p : Processor)
  | function (p : Processor)
  /-- A class that is no processor, by its full name. -/
  | otherClass (name : String)
  | reference (text : String)
  /-- A processor that is registered as it is. -/
  | registered (a : Assignment)
  | mapping (inner : Entry) (given : Option Value)
  /-- A mapping without a class, as it is shown. -/
  | classless (shown : String)
  /-- Anything else, as it is shown. -/
  | other (shown : String)

/-- What an option holds. -/
inductive Setting where
  | value (v : Value)
  | function (p : Processor)

namespace Assignment

def target (a : Assignment) : Entry :=
  if a.isFunction then .function a.spec.processor else .processor a.spec.processor

/-- All options, with the function of a function. -/
def settings (a : Assignment) : Table String Setting :=
  let values : Table String Setting := a.spec.options.texts.map fun e ↦ (e.1, .value e.2)
  if a.isFunction then values.insert Spec.functionKey (.function a.spec.processor) else values

end Assignment

theorem Value.Fields.sizeOf_get?_lt {fields : Value.Fields} {key : String} {v : Value}
    (h : fields.get? key = some v) : sizeOf v < sizeOf (Value.map fields) := by
  simp only [Value.Fields.get?, Option.map_eq_some_iff] at h
  obtain ⟨field, hf, rfl⟩ := h
  have hmem := List.mem_of_find?_eq_some hf
  have hlt := List.sizeOf_lt_of_mem hmem
  have hsnd : sizeOf field.2 < sizeOf field := by
    cases field
    simp only [Prod.mk.sizeOf_spec]
    omega
  simp only [Value.map.sizeOf_spec]
  omega

namespace Entry

/-- The options that a mapping gives, none where it has no options or false ones. -/
def fieldsOf : Option Value → Except Failure Value.Fields
  | none => .ok []
  | some (.map fields) => .ok fields
  | some v => if v.truthy then .error (.invalidProcessor (.badOptions v)) else .ok []

/-- What an entry is registered as, where `follow` says what a reference is. -/
def coerceWith (follow : String → Value.Fields → Except Failure Assignment) :
    Entry → Value.Fields → Except Failure Assignment
  | .processor p, options => .ok ⟨⟨p, options⟩, false⟩
  | .function p, options => .ok ⟨⟨p, options⟩, true⟩
  | .otherClass name, _ => .error (.invalidProcessor (.notProcessor name))
  | .reference text, options => follow text options
  | .registered a, _ => .ok a
  | .mapping inner given, options => do
    coerceWith follow inner (Value.Fields.merge (← fieldsOf given) options)
  | .classless shown, _ => .error (.invalidProcessor (.noClass shown))
  | .other shown, _ => .error (.invalidProcessor (.unsupported shown))

/-- The entry that a configuration spells: a text is a reference, and a mapping has a class, which is an
entry again. -/
def ofValue (v : Value) : Entry :=
  match v with
  | .text s => .reference s
  | .map fields =>
    match _h : Value.Fields.get? fields "class" with
    | none => .classless (Value.map fields).quoted
    | some .null => .classless (Value.map fields).quoted
    | some inner => .mapping (ofValue inner) (Value.Fields.get? fields "options")
  | v => .other v.quoted
  termination_by sizeOf v
  decreasing_by exact Value.Fields.sizeOf_get?_lt _h

end Entry

end AssetBundler
