import AccessControl.Proofs.Log.Entries
import AccessControl.Proofs.Value.Bounded
import AccessControl.Proofs.Value.Objects
import Mathlib

/-! # What the JSON object of an entry carries

The object is written in the printed characters of ASCII, so it is one line whatever the entry holds
(`basic_jsonLine`).  A reader finds the message in it, the id that correlates entries and every
extra that is written; of the other four fields that the entry has by itself, those that no extra is
named after (`jsonLine_carries`).  No name of these four is refused for an extra: the service of a
rule is noted under the name of the field that tells which program speaks, and takes its place
(`jsonLine_service_lost`). -/

namespace AccessControl

/-- What a JSON text keeps holds no whole number whose numeral is too long. -/
theorem Value.Lossless.not_isOverlong {v : Value} (h : v.Lossless) : ¬v.isOverlong = true := by
  rw [isOverlong_iff]
  rintro ⟨n, hn, hlong⟩
  induction hn with
  | int =>
      cases h with
      | int _ hshort => exact hlong hshort
  | item hv _ ih =>
      cases h with
      | list _ hitems => exact ih (hitems _ hv)
  | field hf _ ih =>
      cases h with
      | object _ _ hfields => exact ih (hfields _ hf)

namespace Log
namespace Entry

open Text (Basic)

variable {e : Entry} {level : Value} {time message : String}

theorem basic_objectText {fields : Fields} {line : String} (h : objectText fields = .ok line) :
    Basic line.toList := by
  unfold objectText at h
  split at h
  · cases h
  · obtain rfl := Except.ok.inj h
    rw [Value.toJson, String.toList_ofList]
    exact Value.basic_json _

theorem basic_jsonLine {line : String} (h : e.jsonLine = .ok line) : Basic line.toList := by
  unfold jsonLine at h
  split at h
  · cases h
  · obtain ⟨level, -, h⟩ := bind_eq_ok h
    obtain ⟨time, -, h⟩ := bind_eq_ok h
    obtain ⟨message, -, h⟩ := bind_eq_ok h
    exact basic_objectText h

/-! ### Fields -/

/-- The fields that an extra may be named after. -/
def openFields (e : Entry) (level : Value) (time : String) : Fields :=
  [("timestamp", .text time), ("level", level), ("service", .text "authz-oracle"),
   ("logger", e.logger)]

/-- The fields that no extra is written in the place of. -/
def heldFields (e : Entry) (message : String) : Fields :=
  [("message", .text message), (correlationName, e.correlation.toValue)]

/-- The fields of the entry itself. -/
def ownFields (e : Entry) (level : Value) (time message : String) : Fields :=
  e.openFields level time ++ e.heldFields message

/-- The extras that are written, as fields. -/
def extraFields (e : Entry) : Fields := e.listed.map fun x => (x.1, x.2.toValue)

/-- The fields of the JSON object of an entry without an error. -/
def jsonFields (e : Entry) (level : Value) (time message : String) : Fields :=
  (e.ownFields level time message).insertAll e.extraFields

/-- The extras have different names, and a JSON text keeps every value that is written. -/
structure Writable (e : Entry) : Prop where
  names : (e.extras.map Prod.fst).Nodup
  extras : ∀ x ∈ e.extras, isListed x.1 = true ∨ x.1 = correlationName → x.2.toValue.Lossless
  logger : e.logger.Lossless
  bound : e.bound.Lossless

theorem lossless_levelName {v : Value} (h : levelName v = .ok level) : level.Lossless := by
  rcases levelName_cases h with ⟨-, name, rfl, -⟩ | ⟨s, n, -, -, rfl, hn⟩ | rfl
  · exact .text name
  · exact .int n hn
  · exact .text _

theorem Writable.lossless_correlation (he : e.Writable) : e.correlation.toValue.Lossless := by
  unfold correlation
  split
  · next d hfilter =>
      obtain ⟨hlookup, -⟩ := Option.filter_eq_some_iff.mp hfilter
      obtain ⟨front, back, hextras, -⟩ := List.lookup_eq_some_iff.mp hlookup
      have hmem : (correlationName, d) ∈ e.extras := by simp [hextras]
      exact he.extras _ hmem (.inr rfl)
  · split
    · exact he.bound
    · exact .text "-"

theorem nodup_ownFields (e : Entry) (level : Value) (time message : String) :
    ((e.ownFields level time message).map Prod.fst).Nodup := by
  have hnames :
      (["timestamp", "level", "service", "logger", "message", correlationName] :
        List String).Nodup := by decide
  exact hnames

theorem nodup_extraFields (h : (e.extras.map Prod.fst).Nodup) :
    (e.extraFields.map Prod.fst).Nodup := by
  rw [extraFields, List.map_map]
  exact h.sublist (List.filter_sublist.map Prod.fst)

theorem lossless_jsonFields (h : e.Shows level time message) (he : e.Writable) :
    (Value.object (e.jsonFields level time message)).Lossless := by
  have hown : ∀ f ∈ e.ownFields level time message, f.2.Lossless := by
    simp only [ownFields, openFields, heldFields, List.cons_append, List.nil_append,
      List.forall_mem_cons]
    exact ⟨.text time, lossless_levelName h.level, .text _, he.logger, .text message,
      he.lossless_correlation, List.forall_mem_nil _⟩
  have hextra : ∀ f ∈ e.extraFields, f.2.Lossless := by
    refine List.forall_mem_map.mpr fun x hx => ?_
    obtain ⟨hmem, hlisted⟩ := List.mem_filter.mp hx
    exact he.extras x hmem (.inl hlisted)
  exact .object _ (Fields.nodup_insertAll (nodup_ownFields e level time message) _)
    (Value.Fields.forall_insertAll hown hextra)

theorem ofJson_jsonFields (h : e.Shows level time message) (he : e.Writable) :
    Value.ofJson (Value.object (e.jsonFields level time message)).toJson =
      .ok (.object (e.jsonFields level time message)) :=
  (lossless_jsonFields h he).readBack.ofJson_toJson

theorem jsonLine_eq (h : e.Shows level time message) (he : e.Writable) (herror : e.error = none)
    (hs : e.message = .ok message) :
    e.jsonLine = .ok (Value.object (e.jsonFields level time message)).toJson := by
  have hshort : ¬(Value.object (e.jsonFields level time message)).isOverlong = true :=
    (lossless_jsonFields h he).not_isOverlong
  unfold jsonLine
  rw [h.clash_eq, h.level, h.time, hs, herror]
  exact if_neg hshort

/-! ### Names -/

theorem mem_extraFields_iff {name : String} {v : Value} :
    (name, v) ∈ e.extraFields ↔ ∃ d, (name, d) ∈ e.extras ∧ isListed name = true ∧
      d.toValue = v := by
  constructor
  · intro h
    obtain ⟨⟨other, d⟩, hx, heq⟩ := List.mem_map.mp h
    obtain ⟨rfl, rfl⟩ := Prod.mk.inj heq
    obtain ⟨hd, hlisted⟩ := List.mem_filter.mp hx
    exact ⟨d, hd, hlisted, rfl⟩
  · rintro ⟨d, hd, hlisted, rfl⟩
    exact List.mem_map.mpr ⟨(name, d), List.mem_filter.mpr ⟨hd, hlisted⟩, rfl⟩

/-- What a reader finds in the object of an entry: the extras that are written, the fields
of the entry itself that no extra is named after, the message and the id that correlates
entries, and nothing else. -/
structure Carries (e : Entry) (level : Value) (time message : String) (fields : Fields) : Prop where
  extra : ∀ name d, (name, d) ∈ e.extras → isListed name = true → fields.get? name = some d.toValue
  own : ∀ name v, (name, v) ∈ e.openFields level time →
    (fields.get? name = some v ↔ ∀ d, (name, d) ∈ e.extras → d.toValue = v)
  nothing : ∀ name, name ∉ (e.ownFields level time message).map Prod.fst →
    (∀ d, (name, d) ∈ e.extras → isListed name = false) → fields.get? name = none
  message : fields.get? "message" = some (.text message)
  correlation : fields.get? correlationName = some e.correlation.toValue

section names

variable (hnames : (e.extras.map Prod.fst).Nodup)
include hnames

theorem get?_jsonFields (name : String) : (e.jsonFields level time message).get? name =
    (e.extraFields.get? name).or ((e.ownFields level time message).get? name) :=
  Fields.get?_insertAll (nodup_extraFields hnames) name

theorem get?_extra {name : String} {d : Detail} (hd : (name, d) ∈ e.extras)
    (hlisted : isListed name = true) :
    (e.jsonFields level time message).get? name = some d.toValue := by
  have hmem : (name, d.toValue) ∈ e.extraFields := mem_extraFields_iff.mpr ⟨d, hd, hlisted, rfl⟩
  have hget : e.extraFields.get? name = some d.toValue :=
    Value.get?_of_mem (nodup_extraFields hnames) hmem
  rw [get?_jsonFields hnames, hget, Option.some_or]

theorem get?_own {name : String} (h : ∀ d, (name, d) ∈ e.extras → isListed name = false) :
    (e.jsonFields level time message).get? name = (e.ownFields level time message).get? name := by
  have hnone : e.extraFields.get? name = none := by
    rw [Option.eq_none_iff_forall_ne_some]
    intro v hv
    obtain ⟨d, hd, hlisted, -⟩ := mem_extraFields_iff.mp (Fields.mem_of_get? hv)
    exact Bool.false_ne_true ((h d hd).symm.trans hlisted)
  rw [get?_jsonFields hnames, hnone, Option.none_or]

/-- A field that an extra may be named after is kept just when the extra of that name is the
same. -/
theorem get?_open_iff {name : String} {v : Value} (hv : (name, v) ∈ e.openFields level time) :
    (e.jsonFields level time message).get? name = some v ↔ ∀ d, (name, d) ∈ e.extras →
      d.toValue = v := by
  have hlisted : isListed name = true := by
    have hall : ∀ other ∈ ["timestamp", "level", "service", "logger"], isListed other = true := by
      decide +kernel
    have hname : name ∈ (e.openFields level time).map Prod.fst := List.mem_map_of_mem hv
    exact hall name hname
  constructor
  · intro hget d hd
    rw [get?_extra hnames hd hlisted] at hget
    exact Option.some.inj hget
  · intro hsame
    by_cases hextra : ∃ d, (name, d) ∈ e.extras
    · obtain ⟨d, hd⟩ := hextra
      rw [get?_extra hnames hd hlisted, hsame d hd]
    · have hown : (name, v) ∈ e.ownFields level time message := List.mem_append_left _ hv
      rw [get?_own hnames fun d hd => absurd ⟨d, hd⟩ hextra]
      exact Value.get?_of_mem (nodup_ownFields e level time message) hown

theorem carries_jsonFields : e.Carries level time message (e.jsonFields level time message) where
  extra name d hd hlisted := get?_extra hnames hd hlisted
  own name v hv := get?_open_iff hnames hv
  nothing name hname hunlisted := by
    rw [get?_own hnames hunlisted, Option.eq_none_iff_forall_ne_some]
    exact fun v hv => hname (List.mem_map_of_mem (Fields.mem_of_get? hv))
  message := by
    have hunlisted : isListed "message" = false := by decide +kernel
    rw [get?_own hnames fun d _ => hunlisted]
    rfl
  correlation := by
    have hunlisted : isListed correlationName = false := by decide +kernel
    rw [get?_own hnames fun d _ => hunlisted]
    rfl

end names

/-! ### Lines -/

/-- An entry without an error is written on one line, unless it is silenced, and the object
that is read from the line carries its extras and its own fields, but for those that an
extra is named after. -/
theorem jsonLine_carries (h : e.Shows level time message) (herror : e.error = none)
    (he : e.Writable) :
    e.Silenced ∧ e.jsonLine = .error (.type none) ∨
      ¬e.Silenced ∧ ∃ line, ∃ fields : Fields, e.jsonLine = .ok line ∧ Basic line.toList ∧
        Value.ofJson line = .ok (.object fields) ∧ e.Carries level time message fields := by
  rcases h.message_eq with ⟨hsilenced, hs⟩ | ⟨hsilenced, hs⟩
  · refine .inl ⟨hsilenced, ?_⟩
    unfold jsonLine
    rw [h.clash_eq, h.level, h.time, hs]
    rfl
  · have hline := jsonLine_eq h he herror hs
    have hfields : e.Carries level time message (e.jsonFields level time message) :=
      carries_jsonFields he.names
    exact .inr ⟨hsilenced, _, _, hline, basic_jsonLine hline, ofJson_jsonFields h he, hfields⟩

theorem Writable.of_record {r : Record} {seconds millis : ℤ} {more : List (String × Detail)}
    (hnames : ((r.entry seconds millis more).extras.map Prod.fst).Nodup)
    (hdetails : ∀ f ∈ r.details, f.2.Lossless) (hmore : ∀ x ∈ more, x.2.toValue.Lossless) :
    (r.entry seconds millis more).Writable := by
  have hall : ∀ x ∈ (r.entry seconds millis more).extras, x.2.toValue.Lossless :=
    List.forall_mem_append.mpr ⟨List.forall_mem_map.mpr hdetails, hmore⟩
  exact ⟨hnames, fun x hx _ => hall x hx, .text _, .null⟩

/-- The note of a rule that was made. -/
def creation : Record :=
  ⟨.info, .ruleStore, "authz.rules.create.success",
    context [("service", .text "orders"), ("rule_id", .int 12), ("method", .text "GET")]⟩

theorem lossless_creation : ∀ f ∈ creation.details, f.2.Lossless := by
  have hdetails :
      creation.details = [("service", .text "orders"), ("rule_id", .int 12),
        ("method", .text "GET")] := rfl
  have hid : Value.Lossless (.int 12) := .int 12 (Database.short_of_fits (by decide))
  rw [hdetails]
  simp [hid, Value.Lossless.text]

/-- The object carries what is known of a rule, but for what is kept back, and not
the program that speaks. -/
theorem jsonLine_carries_creation :
    let e :=
  creation.entry 1772446447 118 [("took", .duration ⟨1500000⟩), ("caller", .other "job 7" true),
      ("_seen", .value (.bool true)), (correlationName, .value (.text "9f2c"))]
    e.Shows (.text "INFO") "2026-03-02T10:14:07.118Z" "authz.rules.create.success" ∧
      e.error = none ∧ e.Writable ∧
      ∃ line, ∃ fields : Fields, e.jsonLine = .ok line ∧ Value.ofJson line = .ok (.object fields) ∧
        fields.get? "took" = some (.text "0:00:01.500000") ∧
          fields.get? "caller" = some (.text "job 7") ∧
        fields.get? "_seen" = none ∧ fields.get? correlationName = some (.text "9f2c") ∧
        fields.get? "logger" = some e.logger ∧
          fields.get? "service" ≠ some (.text "authz-oracle") := by
  intro e
  have h : e.Shows (.text "INFO") "2026-03-02T10:14:07.118Z" "authz.rules.create.success" :=
    Record.shows_entry (by decide +kernel) (by decide +kernel)
  have he : e.Writable := by
    refine .of_record (by decide +kernel) lossless_creation ?_
    simp [Detail.toValue, Value.Lossless.text, Value.Lossless.bool]
  have hsilenced : ¬e.Silenced := by decide +kernel
  rcases jsonLine_carries h rfl he with ⟨hs, -⟩ | ⟨-, line, fields, hline, -, hread, hfields⟩
  · exact absurd hs hsilenced
  have hservice : ("service", Detail.value (.text "orders")) ∈ e.extras :=
    List.mem_of_getElem? (i := 0) rfl
  have htook : ("took", Detail.duration ⟨1500000⟩) ∈ e.extras := List.mem_of_getElem? (i := 3) rfl
  have hcaller : ("caller", Detail.other "job 7" true) ∈ e.extras :=
    List.mem_of_getElem? (i := 4) rfl
  refine ⟨h, rfl, he, line, fields, hline, hread, ?_, ?_, ?_, hfields.correlation, ?_, ?_⟩
  · exact hfields.extra _ _ htook (by decide +kernel)
  · exact hfields.extra _ _ hcaller (by decide +kernel)
  · exact hfields.nothing _ (by decide +kernel) fun d _ => by decide +kernel
  · have hlogger : ("logger", e.logger) ∈ e.openFields (.text "INFO") "2026-03-02T10:14:07.118Z" :=
      List.mem_of_getElem? (i := 3) rfl
    rw [hfields.own _ _ hlogger]
    intro d hd
    have hnone : "logger" ∉ e.extras.map Prod.fst := by decide +kernel
    exact absurd (List.mem_map_of_mem hd) hnone
  · have hown :
        ("service", Value.text "authz-oracle") ∈ e.openFields (.text "INFO")
        "2026-03-02T10:14:07.118Z" :=
      List.mem_of_getElem? (i := 2) rfl
    rw [ne_eq, hfields.own _ _ hown]
    intro hsame
    exact absurd (Value.text.inj (hsame _ hservice)) (by decide)

/-- The name of the program is not in the line of a rule that was made: the service of
the rule took its place. -/
theorem jsonLine_service_lost :
    let e := creation.entry 1772446447 118 []
    let line :=
      "\x7b\"timestamp\":\"2026-03-02T10:14:07.118Z\",\"level\":\"INFO\",\"service\":\"orders\"," ++
      "\"logger\":\"authz_core.features.rules.service\"," ++
      "\"message\":\"authz.rules.create.success\"," ++
      "\"correlation_id\":\"-\",\"rule_id\":12,\"method\":\"GET\"\x7d"
    e.jsonLine = .ok line ∧ ∃ fields : Fields, Value.ofJson line = .ok (.object fields) ∧
      fields.get? "service" = some (.text "orders") ∧
        fields.get? "service" ≠ some (.text "authz-oracle") := by
  intro e line
  have h : e.Shows (.text "INFO") "2026-03-02T10:14:07.118Z" "authz.rules.create.success" :=
    Record.shows_entry (by decide +kernel) (by decide +kernel)
  have he : e.Writable := .of_record (by decide +kernel) lossless_creation (List.forall_mem_nil _)
  have hservice :
      (e.jsonFields (.text "INFO") "2026-03-02T10:14:07.118Z" "authz.rules.create.success").get?
      "service" =
      some (.text "orders") :=
    get?_extra he.names (List.mem_of_getElem? (i := 0) rfl) (by decide +kernel)
  have hline : e.jsonLine = .ok line := by decide +kernel
  have hwhole := (jsonLine_eq h he rfl rfl).symm.trans hline
  have hread := ofJson_jsonFields h he
  rw [Except.ok.inj hwhole] at hread
  refine ⟨hline, _, hread, hservice, ?_⟩
  intro hkept
  have hsame := Option.some.inj (hservice.symm.trans hkept)
  exact absurd (Value.text.inj hsame) (by decide)

end Entry
end Log
end AccessControl
