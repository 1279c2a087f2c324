import Mathlib.Algebra.Order.Ring.Int
import Mathlib.Data.List.Basic
import Mathlib.Tactic.Common

/-!
# JSON codecs

Values as JSON, and back. A codec carries its round trip; a record is described
field by field, each field with what it does when it is absent, and an enumeration
whose variants carry data by a tag and a payload. A field whose value is left out
must come back from its absence, so the round trip of a record is that of its fields.

## Main definitions

- `Codec`: encoding, decoding and the round trip of the values that fit
- `FieldCodec`: a field, which may be absent
- `Fields`: the fields of a record and the record they make
- `tagged`: variants with a tag
-/

/-- JSON without fractions. -/
inductive Json
  | null
  | bool (b : Bool)
  | int (n : ℤ)
  | str (s : String)
  | arr (items : List Json)
  | obj (entries : List (String × Json))

namespace Json

/-- What an object has under a key: nothing, one value, or an error for two. -/
def entry (key : String) (entries : List (String × Json)) : Option (Option Json) :=
  match entries.filter (fun e => e.1 = key) with
  | [] => some none
  | [e] => some (some e.2)
  | _ => none

/-- The `type` and the `payload` of a variant. -/
def tagged (tag : String) (payload : Json) : Json :=
  .obj [("type", .str tag), ("payload", payload)]

def untag : Json → Option (String × Json)
  | .obj entries =>
    match entry "type" entries, entry "payload" entries with
    | some (some (.str tag)), some (some payload) => some (tag, payload)
    | _, _ => none
  | _ => none

theorem untag_tagged (tag : String) (payload : Json) :
    untag (tagged tag payload) = some (tag, payload) := rfl

theorem tagged_ne_null (tag : String) (payload : Json) : tagged tag payload ≠ .null := Json.noConfusion

end Json

/-! ## Codecs -/

/-- Values as JSON: those that fit come back. No value is `null`, which is left
to fields that may be absent. -/
structure Codec (α : Type) where
  encode : α → Json
  decode : Json → Option α
  fits : α → Bool
  encode_ne_null : ∀ a, encode a ≠ .null
  decode_encode : ∀ a, fits a → decode (encode a) = some a

namespace Codec

variable {α : Type}

def bool : Codec Bool where
  encode := .bool
  decode
    | .bool b => some b
    | _ => none
  fits _ := true
  encode_ne_null _ := Json.noConfusion
  decode_encode _ _ := rfl

def string : Codec String where
  encode := .str
  decode
    | .str s => some s
    | _ => none
  fits _ := true
  encode_ne_null _ := Json.noConfusion
  decode_encode _ _ := rfl

/-- A signed number of some width. -/
def signed (bits : ℕ) : Codec ℤ where
  encode := .int
  decode
    | .int n => if -2 ^ (bits - 1) ≤ n ∧ n < 2 ^ (bits - 1) then some n else none
    | _ => none
  fits n := -2 ^ (bits - 1) ≤ n ∧ n < 2 ^ (bits - 1)
  encode_ne_null _ := Json.noConfusion
  decode_encode _ h := if_pos (of_decide_eq_true h)

def i64 : Codec ℤ := signed 64

def i32 : Codec ℤ := signed 32

/-- An enumeration without data, by the names of its variants. -/
def names (name : α → String) (all : List α) (hall : ∀ a, a ∈ all)
    (hname : ∀ a b, name a = name b → a = b) : Codec α where
  encode a := .str (name a)
  decode
    | .str s => all.find? (fun a => name a = s)
    | _ => none
  fits _ := true
  encode_ne_null _ := Json.noConfusion
  decode_encode a _ := by
    cases hfound : all.find? (fun b => name b = name a) with
    | none =>
      have hnone := List.find?_eq_none.1 hfound a (hall a)
      exact absurd (decide_eq_true rfl) hnone
    | some b =>
      have hb : decide (name b = name a) = true :=
        List.find?_some (p := fun b => decide (name b = name a)) hfound
      rw [hname b a (of_decide_eq_true hb)] at hfound
      exact hfound

def list (c : Codec α) : Codec (List α) where
  encode items := .arr (items.map c.encode)
  decode
    | .arr items => items.mapM c.decode
    | _ => none
  fits items := items.all c.fits
  encode_ne_null _ := Json.noConfusion
  decode_encode items h := by
    induction items with
    | nil => rfl
    | cons a items ih =>
      rw [List.all_cons, Bool.and_eq_true] at h
      have hrest : (items.map c.encode).mapM c.decode = some items := ih h.2
      change ((a :: items).map c.encode).mapM c.decode = some (a :: items)
      rw [List.map_cons, List.mapM_cons, c.decode_encode a h.1, hrest]
      rfl

/-- An enumeration of variants with data: `#[serde(tag = "type", content = "payload")]`. -/
def adjacentlyTagged (encodeVariant : α → String × Json)
    (decodeVariant : String × Json → Option α) (fits : α → Bool)
    (h : ∀ a, fits a → decodeVariant (encodeVariant a) = some a) : Codec α where
  encode a := Json.tagged (encodeVariant a).1 (encodeVariant a).2
  decode json := (Json.untag json).bind decodeVariant
  fits := fits
  encode_ne_null _ := Json.tagged_ne_null _ _
  decode_encode a ha := by
    rw [Json.untag_tagged]
    exact h a ha

end Codec

/-! ## Fields -/

/-- A field of a record; none is its absence. -/
structure FieldCodec (α : Type) where
  encode : α → Option Json
  decode : Option Json → Option α
  fits : α → Bool
  decode_encode : ∀ a, fits a → decode (encode a) = some a

namespace FieldCodec

variable {α : Type}

/-- A field without attributes. -/
def required (c : Codec α) : FieldCodec α where
  encode a := some (c.encode a)
  decode found := found.bind c.decode
  fits := c.fits
  decode_encode a h := c.decode_encode a h

/-- How an `Option` is read: an absent field is `None`, and so is `null`. -/
def decodeOption (c : Codec α) : Option Json → Option (Option α)
  | none => some none
  | some .null => some none
  | some json => (c.decode json).map some

theorem decodeOption_encode (c : Codec α) {a : α} (h : c.fits a) :
    decodeOption c (some (c.encode a)) = some (some a) := by
  have hne := c.encode_ne_null a
  have hdecode := c.decode_encode a h
  revert hne hdecode
  cases c.encode a with
  | null => exact fun hne => absurd rfl hne
  | bool | int | str | arr | obj =>
    intro _ hdecode
    rw [decodeOption, hdecode]
    · rfl
    · exact Json.noConfusion

/-- An `Option` without attributes: `None` is written as `null`. -/
def nullable (c : Codec α) : FieldCodec (Option α) where
  encode
    | none => some .null
    | some a => some (c.encode a)
  decode := decodeOption c
  fits value := value.all c.fits
  decode_encode
    | none, _ => rfl
    | some _, h => decodeOption_encode c h

/-- `#[serde(default, skip_serializing_if = "Option::is_none")]`. -/
def skipNone (c : Codec α) : FieldCodec (Option α) where
  encode value := value.map c.encode
  decode := decodeOption c
  fits value := value.all c.fits
  decode_encode
    | none, _ => rfl
    | some _, h => decodeOption_encode c h

/-- `#[serde(default = ..)]`, or `#[serde(default)]` with the default of the type. -/
def withDefault (c : Codec α) (default : α) : FieldCodec α where
  encode a := some (c.encode a)
  decode
    | none => some default
    | some json => c.decode json
  fits := c.fits
  decode_encode a h := c.decode_encode a h

/-- `#[serde(default, skip_serializing_if = "Vec::is_empty")]`. -/
def skipEmpty (c : Codec α) : FieldCodec (List α) where
  encode items := if items.isEmpty then none else some (c.list.encode items)
  decode
    | none => some []
    | some json => c.list.decode json
  fits := c.list.fits
  decode_encode
    | [], _ => rfl
    | a :: items, h => c.list.decode_encode (a :: items) h

end FieldCodec

/-! ## Records -/

/-- The first fields of a record of type `R`; `A` is the type of its constructor
after these fields. -/
structure Fields (R A : Type) where
  keys : List String
  encode : R → List (String × Json)
  decode : List (String × Json) → Option A
  fits : R → Bool
  value : R → A
  keys_encode : ∀ r, ∀ e ∈ encode r, e.1 ∈ keys
  decode_encode : keys.Nodup → ∀ r, fits r → ∀ entries,
    (∀ key ∈ keys, Json.entry key entries = Json.entry key (encode r)) →
      decode entries = some (value r)

namespace Fields

open Json

variable {R A α : Type}

/-- No field yet. -/
def start (R : Type) (make : A) : Fields R A where
  keys := []
  encode _ := []
  decode _ := some make
  fits _ := true
  value _ := make
  keys_encode _ _ h := absurd h List.not_mem_nil
  decode_encode _ _ _ _ _ := rfl

/-- What one more field writes. -/
def fieldEntries (key : String) (found : Option Json) : List (String × Json) :=
  (found.map fun json => (key, json)).toList

theorem filter_eq_nil {key : String} {entries : List (String × Json)}
    (h : ∀ e ∈ entries, e.1 ≠ key) : entries.filter (fun e => e.1 = key) = [] :=
  List.filter_eq_nil_iff.2 fun e he hkey => h e he (of_decide_eq_true hkey)

theorem entry_append_left {key : String} {entries others : List (String × Json)}
    (h : ∀ e ∈ others, e.1 ≠ key) : entry key (entries ++ others) = entry key entries := by
  rw [entry, List.filter_append, filter_eq_nil h, List.append_nil, entry]

theorem entry_append_field {key : String} {entries : List (String × Json)} {found : Option Json}
    (h : ∀ e ∈ entries, e.1 ≠ key) : entry key (entries ++ fieldEntries key found) = some found := by
  rw [entry, List.filter_append, filter_eq_nil h, List.nil_append, fieldEntries]
  cases found with
  | none => rfl
  | some json =>
    have hkey : [(key, json)].filter (fun e => decide (e.1 = key)) = [(key, json)] :=
      List.filter_cons_of_pos (decide_eq_true rfl)
    rw [Option.map_some, Option.toList_some, hkey]

theorem key_of_mem_fieldEntries {key : String} {found : Option Json} {e : String × Json}
    (h : e ∈ fieldEntries key found) : e.1 = key := by
  rw [fieldEntries, Option.mem_toList] at h
  obtain ⟨json, -, rfl⟩ := Option.map_eq_some_iff.1 h
  rfl

/-- One more field. -/
def field (f : Fields R (α → A)) (key : String) (get : R → α) (c : FieldCodec α) : Fields R A where
  keys := f.keys ++ [key]
  encode r := f.encode r ++ fieldEntries key (c.encode (get r))
  decode entries :=
    (f.decode entries).bind fun make =>
      (entry key entries).bind fun found => (c.decode found).map make
  fits r := f.fits r && c.fits (get r)
  value r := f.value r (get r)
  keys_encode r e he := by
    rcases List.mem_append.1 he with he | he
    · exact List.mem_append_left _ (f.keys_encode r e he)
    · exact List.mem_append_right _ (List.mem_singleton.2 (key_of_mem_fieldEntries he))
  decode_encode hkeys r hfits entries hentries := by
    obtain ⟨hold, -, hapart⟩ := List.nodup_append.1 hkeys
    rw [Bool.and_eq_true] at hfits
    have hkey : ∀ e ∈ f.encode r, e.1 ≠ key := fun e he =>
      hapart e.1 (f.keys_encode r e he) key List.mem_cons_self
    have hbefore : f.decode entries = some (f.value r) := by
      refine f.decode_encode hold r hfits.1 entries fun key' hkey' => ?_
      rw [hentries key' (List.mem_append_left _ hkey')]
      refine entry_append_left fun e he heq => ?_
      exact hapart key' hkey' key List.mem_cons_self (heq.symm.trans (key_of_mem_fieldEntries he))
    have hfound : entry key entries = some (c.encode (get r)) := by
      rw [hentries key (List.mem_append_right _ List.mem_cons_self)]
      exact entry_append_field hkey
    rw [hbefore, Option.bind_some, hfound, Option.bind_some, c.decode_encode _ hfits.2]
    rfl

/-- A record with all its fields. -/
def struct (f : Fields R R) (hkeys : f.keys.Nodup) (hvalue : ∀ r, f.value r = r) : Codec R where
  encode r := .obj (f.encode r)
  decode
    | .obj entries => f.decode entries
    | _ => none
  fits := f.fits
  encode_ne_null _ := Json.noConfusion
  decode_encode r h := (f.decode_encode hkeys r h (f.encode r) fun _ _ => rfl).trans
    (congrArg some (hvalue r))

end Fields
