import CppDeps.Json.Records
import CppDeps.Proofs.Lists
import CppDeps.Proofs.Table
import Mathlib.Data.List.Sort
import Mathlib.Data.String.Basic

/-!
# Forms of JSON values

A form tells how values of one kind are written.  Of a record it lists the members by name, each with the
form of its values and with what stands for it where it is absent.  A written value can differ from what
would be written for its meaning in a few ways only: members that the record does not have, members left
out, another order of the members, and names of a set in any order and number.  `Form.tidy` undoes just
these, at every level, and keeps all else as it stands.

A codec is faithful (`Codec.Faithful`) if reading what was written gives the value back, and if writing
what was read gives the tidied form of what stood there.  How far tidying goes is told by the form alone, so
a codec that drops or changes a member of a record is not faithful.  A record is faithful if each of its fields is
(`Codec.Faithful.record`).
-/

namespace CppDeps

/-! ## Sets of names -/

namespace NameSet

/-- Two sets with the same names are equal. -/
lemma ext_of_mem_iff {set set' : NameSet} (h : ∀ name, name ∈ set ↔ name ∈ set') : set = set' := by
  have hsame : set.toList = set'.toList := set.ascending.eq_of_mem_iff set'.ascending h
  cases set
  cases set'
  congr

/-- A set is the set of its names. -/
lemma ofList_toList (set : NameSet) : ofList set.toList = set :=
  ext_of_mem_iff fun _ => mem_ofList

/-- The set of some names has these names in order, each once. -/
lemma toList_ofList (texts : List String) :
    (ofList texts).toList = texts.eraseDups.mergeSort fun a b => decide (a ≤ b) := by
  have hperm := List.mergeSort_perm texts.eraseDups fun a b => decide (a ≤ b)
  have hsorted := List.sortedLT_iff_nodup_and_sortedLE.2
    ⟨hperm.nodup_iff.2 (nodup_eraseDups texts), List.sortedLE_mergeSort⟩
  refine (ofList texts).ascending.sortedLT.eq_of_mem_iff hsorted fun name => ?_
  rw [hperm.mem_iff, List.mem_eraseDups]
  exact mem_ofList

end NameSet

namespace Json

variable {α σ : Type}

/-! ## Forms -/

/-- How values of one kind are written. -/
structure Form where
  /-- Is a value written in the plain way: are its records objects in which no name stands twice, and its
  variants texts? -/
  Plain : Json → Prop
  /-- The value as it would be written for what it means. -/
  tidy : Json → Json

/-- A member of a record. -/
structure Member where
  name : String
  form : Form
  /-- What stands for the member where it is absent; nothing if it has to be there. -/
  absent : Option Json

/-- What a member of an object is written as: its value tidied, or what stands for it if it is absent. -/
def Member.tidied (member : Member) (written : Record) : Option Json :=
  match written.lookup member.name with
  | some value => some (member.form.tidy value)
  | none => member.absent

namespace Form

/-- Texts, counts and truth values, which are written in one way only. -/
def scalar : Form where
  Plain _ := True
  tidy json := json

/-- Names of variants. -/
def variant : Form where
  Plain json := ∃ name, json = .string name
  tidy json := json

/-- Values that may be missing. -/
def optional (form : Form) : Form where
  Plain json := json = .null ∨ form.Plain json
  tidy
    | .null => .null
    | json => form.tidy json

/-- A value other than `null` is tidied. -/
lemma tidy_optional_of_ne {json : Json} (h : json ≠ .null) {form : Form} :
    form.optional.tidy json = form.tidy json := by
  cases json with
  | null => exact absurd rfl h
  | _ => rfl

/-- Lists. -/
def list (form : Form) : Form where
  Plain json := ∀ items, json = .array items → ∀ item ∈ items, form.Plain item
  tidy
    | .array items => .array (items.map form.tidy)
    | json => json

/-- Sets of names, which are tidied by sorting them and removing repetitions. -/
def names : Form where
  Plain _ := True
  tidy json :=
    match strings? json with
    | some texts => strings (texts.eraseDups.mergeSort fun a b => decide (a ≤ b))
    | none => json

/-- Records.  Members that the record does not have are dropped, and the others are put in their order. -/
def record (members : List Member) : Form where
  Plain json := ∃ written, json = .object written ∧ (written.map Prod.fst).Nodup ∧
    ∀ member ∈ members, ∀ value, (member.name, value) ∈ written → member.form.Plain value
  tidy
    | .object written => .object (members.filterMap fun member =>
        (member.tidied written).map fun value => (member.name, value))
    | json => json

end Form

/-! ## Codecs -/

/-- Reads a value that may be missing. -/
def orNull? (decode : Json → Option α) : Json → Option (Option α)
  | .null => some none
  | json => (decode json).map some

/-- A value other than `null` is read. -/
lemma orNull?_of_ne {json : Json} (h : json ≠ .null) (decode : Json → Option α) :
    orNull? decode json = (decode json).map some := by
  cases json with
  | null => exact absurd rfl h
  | _ => rfl

/-- A member that may be absent or `null` is one that may be missing, and is so by default. -/
lemma Record.optional?_eq_defaulted? (written : Record) (name : String) (decode : Json → Option α) :
    written.optional? name decode = written.defaulted? name none (orNull? decode) := by
  unfold optional? defaulted?
  cases written.lookup name with
  | none => rfl
  | some json => cases json <;> rfl

/-- A way to write values and to read them, with the form in which they are written. -/
structure Codec (α : Type) where
  form : Form
  encode : α → Json
  decode? : Json → Option α

/-- Values are written in the plain way, reading undoes writing of the values that fit, and writing undoes
reading up to tidying. -/
structure Codec.Faithful (codec : Codec α) (Fits : α → Prop) : Prop where
  /-- What is written is plain. -/
  plain_encode : ∀ value, codec.form.Plain (codec.encode value)
  /-- Reading what was written gives the value back. -/
  decode?_encode : ∀ value, Fits value → codec.decode? (codec.encode value) = some value
  /-- Writing what was read gives what stood there, tidied. -/
  encode_eq_tidy : ∀ json value, codec.form.Plain json → codec.decode? json = some value →
    codec.encode value = codec.form.tidy json

namespace Codec

/-- Texts. -/
def text : Codec String := ⟨.scalar, .string, string?⟩

/-- Counts. -/
def count : Codec Nat := ⟨.scalar, Json.count, count?⟩

/-- Truth values. -/
def truth : Codec Bool := ⟨.scalar, .bool, bool?⟩

/-- Values that may be missing. -/
def optional (codec : Codec α) : Codec (Option α) :=
  ⟨.optional codec.form, Json.option codec.encode, orNull? codec.decode?⟩

/-- Lists of values. -/
def list (codec : Codec α) : Codec (List α) :=
  ⟨.list codec.form, fun values => .array (values.map codec.encode), list? codec.decode?⟩

/-- Sets of names. -/
def names : Codec NameSet := ⟨.names, NameSet.toJson, NameSet.ofJson?⟩

/-- Variants, written and read by the given functions. -/
def variant (encode : α → Json) (decode? : Json → Option α) : Codec α :=
  ⟨.variant, encode, decode?⟩

/-- Texts are written faithfully. -/
lemma Faithful.text : text.Faithful fun _ => True where
  plain_encode _ := trivial
  decode?_encode _ _ := rfl
  encode_eq_tidy json value _ h := by
    cases json with
    | string s => exact congrArg Json.string (Option.some.inj h).symm
    | _ => exact absurd h (by simp [Codec.text, string?])

/-- Truth values are written faithfully. -/
lemma Faithful.truth : truth.Faithful fun _ => True where
  plain_encode _ := trivial
  decode?_encode _ _ := rfl
  encode_eq_tidy json value _ h := by
    cases json with
    | bool b => exact congrArg Json.bool (Option.some.inj h).symm
    | _ => exact absurd h (by simp [Codec.truth, bool?])

/-- Counts are written faithfully, if they are below the bound. -/
lemma Faithful.count : count.Faithful (· < 2 ^ 64) where
  plain_encode _ := trivial
  decode?_encode n hn := by
    have hbound : n < countBound := hn
    simp [Codec.count, Json.count, count?, hbound]
  encode_eq_tidy json n _ h := by
    cases json with
    | integer i =>
      simp only [Codec.count, count?] at h
      split at h
      · rename_i hi
        obtain rfl := Option.some.inj h
        exact congrArg Json.integer (Int.toNat_of_nonneg hi.1)
      · exact absurd h (by simp)
    | _ => exact absurd h (by simp [Codec.count, count?])

/-- Variants are written faithfully, if each is read from its own name only. -/
lemma Faithful.variant {label : α → String} {ofLabel? : String → Option α} {encode : α → Json}
    {decode? : Json → Option α} (hencode : ∀ value, encode value = .string (label value))
    (hdecode : ∀ json, decode? json = (variant? json).bind ofLabel?)
    (hlabel : ∀ name value, ofLabel? name = some value ↔ label value = name) :
    (variant encode decode?).Faithful fun _ => True where
  plain_encode value := ⟨label value, hencode value⟩
  decode?_encode value _ := by
    simp [Codec.variant, hencode, hdecode, variant?, hlabel]
  encode_eq_tidy json value hplain h := by
    obtain ⟨name, rfl⟩ := hplain
    have hname : ofLabel? name = some value := by
      simpa [Codec.variant, hdecode, variant?] using h
    show encode value = .string name
    rw [hencode, (hlabel name value).1 hname]

/-- Values that may be missing are written faithfully, if those that are there are, and none of them as
`null`. -/
lemma Faithful.optional {codec : Codec α} {Fits : α → Prop} (h : codec.Faithful Fits)
    (hnull : ∀ value, codec.encode value ≠ .null) :
    codec.optional.Faithful fun found => ∀ value ∈ found, Fits value where
  plain_encode found := by
    cases found with
    | none => exact Or.inl rfl
    | some value => exact Or.inr (h.plain_encode value)
  decode?_encode found hfits := by
    cases found with
    | none => rfl
    | some value =>
      show orNull? codec.decode? (codec.encode value) = some (some value)
      rw [orNull?_of_ne (hnull value), h.decode?_encode value (hfits value rfl), Option.map_some]
  encode_eq_tidy json found hplain hread := by
    by_cases hjson : json = .null
    · subst hjson
      obtain rfl : none = found := Option.some.inj hread
      rfl
    · have hread : orNull? codec.decode? json = some found := hread
      rw [orNull?_of_ne hjson, Option.map_eq_some_iff] at hread
      obtain ⟨value, hvalue, rfl⟩ := hread
      show codec.encode value = codec.form.optional.tidy json
      rw [Form.tidy_optional_of_ne hjson]
      exact h.encode_eq_tidy json value (hplain.resolve_left hjson) hvalue

/-- The items of a list are read back one by one. -/
lemma Faithful.mapM_decode?_encode {codec : Codec α} {Fits : α → Prop} (h : codec.Faithful Fits)
    {values : List α} (hfits : ∀ value ∈ values, Fits value) :
    (values.map codec.encode).mapM codec.decode? = some values := by
  induction values with
  | nil => rfl
  | cons value values ih =>
    obtain ⟨hvalue, hvalues⟩ := List.forall_mem_cons.1 hfits
    simp [h.decode?_encode value hvalue, ih hvalues]

/-- The items of a list that was read are written again one by one. -/
lemma Faithful.map_encode_eq_map_tidy {codec : Codec α} {Fits : α → Prop} (h : codec.Faithful Fits)
    {items : List Json} {values : List α} (hplain : ∀ item ∈ items, codec.form.Plain item)
    (hread : items.mapM codec.decode? = some values) :
    values.map codec.encode = items.map codec.form.tidy := by
  induction items generalizing values with
  | nil =>
    obtain rfl : values = [] := by simpa using hread.symm
    rfl
  | cons item items ih =>
    obtain ⟨hitem, hitems⟩ := List.forall_mem_cons.1 hplain
    rw [List.mapM_cons] at hread
    simp only [Option.bind_eq_bind, Option.bind_eq_some_iff, Option.pure_def,
      Option.some.injEq] at hread
    obtain ⟨value, hvalue, rest, hrest, rfl⟩ := hread
    rw [List.map_cons, List.map_cons, h.encode_eq_tidy item value hitem hvalue, ih hitems hrest]

/-- Lists are written faithfully, if their values are. -/
lemma Faithful.list {codec : Codec α} {Fits : α → Prop} (h : codec.Faithful Fits) :
    codec.list.Faithful fun values => ∀ value ∈ values, Fits value where
  plain_encode values := by
    rintro items hitems item hitem
    obtain rfl : values.map codec.encode = items := Json.array.inj hitems
    obtain ⟨value, -, rfl⟩ := List.mem_map.1 hitem
    exact h.plain_encode value
  decode?_encode _ hfits := h.mapM_decode?_encode hfits
  encode_eq_tidy json values hplain hread := by
    cases json with
    | array items => exact congrArg Json.array (h.map_encode_eq_map_tidy (hplain items rfl) hread)
    | _ => exact absurd hread (by simp [Codec.list, list?])

/-- Sets of names are written faithfully. -/
lemma Faithful.names : names.Faithful fun _ => True where
  plain_encode _ := trivial
  decode?_encode set _ := by
    have hread : strings? (NameSet.toJson set) = some set.toList := by
      show (set.toList.map Json.string).mapM string? = some set.toList
      rw [List.mapM_map]
      exact List.mapM_pure.trans (by rw [List.map_id']; rfl)
    show (strings? (NameSet.toJson set)).map NameSet.ofList = some set
    rw [hread, Option.map_some, NameSet.ofList_toList]
  encode_eq_tidy json set _ h := by
    obtain ⟨texts, htexts, rfl⟩ := Option.map_eq_some_iff.1 h
    show strings _ = _
    rw [NameSet.toList_ofList]
    show _ = Form.names.tidy json
    simp only [Form.names, htexts]

end Codec

/-! ## Records -/

/-- A field of a record: its member, its value in a record, and when it is read from an object as the
value that it has in the record. -/
structure RecordField (σ : Type) where
  member : Member
  write : σ → Json
  Reads : Record → σ → Prop

namespace RecordField

/-- A field that has to be there. -/
def required (name : String) (codec : Codec α) (get : σ → α) : RecordField σ where
  member := ⟨name, codec.form, none⟩
  write value := codec.encode (get value)
  Reads written value := written.required? name codec.decode? = some (get value)

/-- A field that has a default. -/
def defaulted (name : String) (codec : Codec α) (default : α) (get : σ → α) : RecordField σ where
  member := ⟨name, codec.form, some (codec.encode default)⟩
  write value := codec.encode (get value)
  Reads written value := written.defaulted? name default codec.decode? = some (get value)

/-- A field that may be missing, and is so by default. -/
def optional (name : String) (codec : Codec α) (get : σ → Option α) : RecordField σ :=
  defaulted name codec.optional none get

/-- A field is read where its value stands, and its value is what stood there, tidied. -/
structure Faithful (field : RecordField σ) (Fits : σ → Prop) : Prop where
  /-- The value is written in the plain way. -/
  plain_write : ∀ value, field.member.form.Plain (field.write value)
  /-- The value is read where it stands. -/
  reads : ∀ written value, Fits value →
    written.lookup field.member.name = some (field.write value) → field.Reads written value
  /-- Where the value is read, it stands up to tidying. -/
  tidied : ∀ written value,
    (∀ json, written.lookup field.member.name = some json → field.member.form.Plain json) →
    field.Reads written value → field.member.tidied written = some (field.write value)

variable {name : String} {codec : Codec α} {FitsPart : α → Prop} {Fits : σ → Prop}

/-- A field that has to be there is faithful if its values are. -/
lemma Faithful.required {get : σ → α} (h : codec.Faithful FitsPart)
    (hfits : ∀ value, Fits value → FitsPart (get value)) :
    (required name codec get).Faithful Fits where
  plain_write value := h.plain_encode (get value)
  reads written value hvalue hlookup := by
    show (written.lookup name).bind codec.decode? = some (get value)
    rw [show written.lookup name = some (codec.encode (get value)) from hlookup, Option.bind_some,
      h.decode?_encode _ (hfits value hvalue)]
  tidied written value hplain hreads := by
    obtain ⟨json, hlookup, hread⟩ := Option.bind_eq_some_iff.1 hreads
    have htidy := h.encode_eq_tidy json (get value) (hplain json hlookup) hread
    simp only [Member.tidied, RecordField.required, hlookup, htidy]

/-- A field that has a default is faithful if its values are. -/
lemma Faithful.defaulted {default : α} {get : σ → α} (h : codec.Faithful FitsPart)
    (hfits : ∀ value, Fits value → FitsPart (get value)) :
    (defaulted name codec default get).Faithful Fits where
  plain_write value := h.plain_encode (get value)
  reads written value hvalue hlookup := by
    have hlookup : written.lookup name = some (codec.encode (get value)) := hlookup
    show written.defaulted? name default codec.decode? = some (get value)
    simp only [Record.defaulted?, hlookup]
    exact h.decode?_encode _ (hfits value hvalue)
  tidied written value hplain hreads := by
    have hreads : written.defaulted? name default codec.decode? = some (get value) := hreads
    unfold Record.defaulted? at hreads
    unfold Member.tidied
    cases hlookup : written.lookup name with
    | none =>
      simp only [hlookup, Option.some.injEq] at hreads
      simp only [RecordField.defaulted, hlookup, hreads]
    | some json =>
      simp only [hlookup] at hreads
      have htidy := h.encode_eq_tidy json (get value) (hplain json hlookup) hreads
      simp only [RecordField.defaulted, hlookup, htidy]

/-- A field that may be missing is faithful if its values are, and none of them is `null`. -/
lemma Faithful.optional {get : σ → Option α} (h : codec.Faithful FitsPart)
    (hnull : ∀ part, codec.encode part ≠ .null)
    (hfits : ∀ value, Fits value → ∀ part ∈ get value, FitsPart part) :
    (optional name codec get).Faithful Fits :=
  .defaulted (h.optional hnull) hfits

end RecordField

/-- The codec of a record with the given fields. -/
def Codec.record (fields : List (RecordField σ)) (encode : σ → Json) (decode? : Json → Option σ) :
    Codec σ :=
  ⟨.record (fields.map RecordField.member), encode, decode?⟩

section Records

variable {fields : List (RecordField σ)} {encode : σ → Json} {decode? : Json → Option σ}
  {Fits : σ → Prop}

/-- What stands under the name of a field, where a record is written, is the value of the field. -/
lemma eq_write_of_mem (hnames : (fields.map fun field => field.member.name).Nodup) {value : σ}
    {field : RecordField σ} (hfield : field ∈ fields) {json : Json}
    (hjson : (field.member.name, json) ∈
      fields.map fun field => (field.member.name, field.write value)) :
    json = field.write value := by
  obtain ⟨field', hfield', heq⟩ := List.mem_map.1 hjson
  obtain ⟨hname, rfl⟩ := Prod.mk.inj heq
  rw [List.inj_on_of_nodup_map hnames hfield' hfield hname]

/-- **Records** are written faithfully, if their fields are. -/
theorem Codec.Faithful.record
    (hencode : ∀ value, encode value = .object (fields.map fun field =>
      (field.member.name, field.write value)))
    (hdecode : ∀ written value, decode? (.object written) = some value ↔
      fields.Forall fun field => field.Reads written value)
    (hnames : (fields.map fun field => field.member.name).Nodup)
    (hfields : fields.Forall fun field => field.Faithful Fits) :
    (Codec.record fields encode decode?).Faithful Fits where
  plain_encode value := by
    refine ⟨_, hencode value, by rwa [List.map_map], fun member hmember json hjson => ?_⟩
    obtain ⟨field, hfield, rfl⟩ := List.mem_map.1 hmember
    rw [eq_write_of_mem hnames hfield hjson]
    exact (List.forall_iff_forall_mem.1 hfields field hfield).plain_write value
  decode?_encode value hfits := by
    show decode? (encode value) = some value
    rw [hencode, hdecode, List.forall_iff_forall_mem]
    intro field hfield
    have hnodup : ((fields.map fun field => (field.member.name, field.write value)).map
        Prod.fst).Nodup := by rwa [List.map_map]
    have hlookup := (Table.get?_eq_some_iff ⟨_, hnodup⟩).2 (List.mem_map_of_mem hfield)
    exact (List.forall_iff_forall_mem.1 hfields field hfield).reads _ value hfits hlookup
  encode_eq_tidy json value hplain hread := by
    obtain ⟨written, rfl, hnodup, hmembers⟩ := hplain
    show encode value = .object _
    rw [hencode, List.filterMap_map]
    congr 1
    rw [← List.filterMap_eq_map']
    refine List.filterMap_congr fun field hfield => ?_
    have htidied : field.member.tidied written = some (field.write value) := by
      have hreads := List.forall_iff_forall_mem.1 ((hdecode written value).1 hread) field hfield
      refine (List.forall_iff_forall_mem.1 hfields field hfield).tidied written value
        (fun json hlookup => ?_) hreads
      have hmem := (Table.get?_eq_some_iff ⟨written, hnodup⟩).1 hlookup
      exact hmembers field.member (List.mem_map_of_mem hfield) json hmem
    show _ = Option.map _ (field.member.tidied written)
    rw [htidied]
    rfl

end Records

end Json

end CppDeps
