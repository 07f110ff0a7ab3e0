import AccessControl.Schema.Coercion
import AccessControl.Time.Stamp

/-! # Forms

A form lists the fields of a structured input: for each its name, the check of its value, and the
value that stands in when it is absent.  `Form.check` takes an input through a form: all fields are
checked side by side, and fields that the form does not have are refused.  The result holds every
field of the form, in its order. -/

namespace AccessControl.Schema

/-- A field of a form.  A field without a value for its absence has to be there. -/
structure Field where
  name : String
  check : Value → Checked Value
  absent : Option Value

/-- The fields of a kind of input. -/
abbrev Form := List Field

namespace Field

/-- The value of a field in an input. -/
def take (f : Field) (fields : Fields) : Checked Value :=
  match f.absent with
  | some v => withDefault fields f.name f.check v
  | none => required fields f.name f.check

/-- The field when null is allowed, and stands in when the field is absent. -/
def orNull (f : Field) : Field :=
  { f with check := fun v => (optional f.check v).map (Value.ofOption id), absent := some .null }

/-- The field when null is allowed. -/
def nullable (f : Field) : Field :=
  { f with check := fun v => (optional f.check v).map (Value.ofOption id) }

/-- The field with a value that stands in when it is absent. -/
def standing (f : Field) (v : Value) : Field := { f with absent := some v }

end Field

/-! ### Kinds of fields -/

/-- A field for a text. -/
def textField (name : String) : Field := ⟨name, fun v => (text v).map .text, none⟩

/-- A field for a whole number. -/
def intField (name : String) : Field := ⟨name, fun v => (int v).map .int, none⟩

/-- A field for a truth value. -/
def boolField (name : String) : Field := ⟨name, fun v => (bool v).map .bool, none⟩

/-- A field for a list of texts. -/
def textsField (name : String) : Field := ⟨name, fun v => (texts v).map Value.texts, none⟩

/-- A field for an object. -/
def objectField (name : String) : Field := ⟨name, fun v => (object v).map .object, none⟩

/-- A time stamp as a value; one before year 1 cannot be written. -/
def stampText (t : Stamp) : Checked Value :=
  if t.isWritable then .ok (.text t.text) else .issue "datetime_parsing"

/-- A count as a time stamp. -/
def counted (t : Option Stamp) : Checked Value := (t.map stampText).getD (.issue "datetime_parsing")

/-- The value as a time stamp: a text, or a count of seconds or milliseconds since the start of
1970. -/
def stamp : Value → Checked Value
  | .text s => ((Stamp.read s).map stampText).getD (.issue "datetime_from_date_parsing")
  | .int n =>
    match Double.ofInt n with
    | .infinite _ => .issue "datetime_type"
    | _ => counted (Stamp.ofCount n 0)
  | .float x => counted (Stamp.ofDouble x)
  | _ => .issue "datetime_type"

/-- A field for a time stamp. -/
def stampField (name : String) : Field := ⟨name, stamp, none⟩

namespace Form

/-- The values of the fields of a form, side by side. -/
def takeAll (fields : Fields) : Form → Checked Fields
  | [] => .ok []
  | f :: fs => (fun v vs => (f.name, v) :: vs) <$> f.take fields <*> takeAll fields fs

/-- An input taken through a form. -/
def check (form : Form) : Value → Checked Fields :=
  model fun fields => (fun values _ => values) <$> takeAll fields form <*>
    noOthers fields (form.map (·.name))

/-- A field whose value goes through a form of its own. -/
def nested (name : String) (form : Form) : Field :=
  ⟨name, fun v => (form.check v).map .object, none⟩

/-- An input taken through a form, or the failure of the input. -/
def read (form : Form) (v : Value) : Except Failure Fields := (form.check v).toExcept

end Form
end AccessControl.Schema
