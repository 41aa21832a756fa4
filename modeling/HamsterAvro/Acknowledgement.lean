import HamsterAvro.Finish

/-!
# The acknowledgement parsers

A register or finish response is a record with one null field, so its only encoding is the empty word
and every slice begins with it. The parsers look at the number of fields: it is one whatever was sent,
and they return `-1` on every slice (`parseAcknowledgement_returns`).
-/

namespace HamsterAvro
open HamsterAvro.Wire HamsterAvro.Avro HamsterAvro.C

/-- `0` on the encodings of a record of the schema and on nothing else; otherwise `-1` or no return. -/
def AcknowledgesExactly (parse : Slice → Prog Int32) (schema : Schema) (slice : Slice) (w : World) :
    Prop :=
  (Returns (parse slice) w (fun r _ => r = 0) ↔ ∃ v, Encodes .full schema v slice.bytes) ∧
  ((¬ ∃ v, Encodes .full schema v slice.bytes) →
    Returns (parse slice) w (fun r _ => r = -1) ∨ Stops (parse slice) w Halt.IsExit)

/-- The empty word is the encoding of a record with one null field. -/
theorem encodes_nullRecord {c : Checks} {name field : String} {v : Value} {word : Bytes} :
    Encodes c (.record name [(field, .null)]) v word ↔ v = .record [(field, .null)] ∧ word = [] := by
  constructor
  · intro h
    obtain ⟨_, rfl, hfields⟩ := h
    obtain ⟨_, _, _, _, rfl, rfl, ⟨rfl, rfl⟩, rfl, rfl⟩ := hfields
    exact ⟨rfl, rfl⟩
  · intro h
    rw [h.1, h.2]
    exact .record (.cons .null .nil)

section host
variable {host : Host} {w : World}
  (hlib : host.lib.Accessors) (hfiles : host.Installed) (hmem : host.MallocSucceeds)
  (hreads : host.lib.ReadsFormat)
include hlib hfiles hmem hreads

theorem parseAcknowledgement_returns {file name field : String}
    (hfile : (file, .record name [(field, .null)]) ∈ schemaFiles) (slice : Slice) :
    Returns (parseAcknowledgement host file slice) w fun r _ => r = -1 := by
  have hholds : slice.Holds host (.record name [(field, .null)]) (.record [(field, .null)]) :=
    Slice.holds_of_prefix (c := .none) hreads (List.nil_append slice.bytes).symm
      (encodes_nullRecord.mpr ⟨rfl, rfl⟩)
  refine (readRecord_returns hlib hfiles hmem hfile hholds).bind fun record _ h => ?_
  subst h
  refine closeRecord_returns.bind fun _ _ _ => ?_
  rw [hlib.sizeOr_record (r := []) rfl]
  exact Returns.pure rfl

theorem parseAcknowledgement_exactly {file name field : String}
    (hfile : (file, .record name [(field, .null)]) ∈ schemaFiles) (slice : Slice) :
    AcknowledgesExactly (parseAcknowledgement host file) (.record name [(field, .null)]) slice w ↔
      slice.bytes ≠ [] := by
  have hreturns (w : World) := parseAcknowledgement_returns (w := w) hlib hfiles hmem hreads hfile slice
  have hzero : ¬ Returns (parseAcknowledgement host file slice) w fun r _ => r = 0 := by
    intro h
    obtain ⟨r, w', hrun, rfl⟩ := h
    exact absurd ((hreturns w).of_run hrun) (by decide)
  simp only [AcknowledgesExactly, hzero, encodes_nullRecord, exists_eq_left, false_iff, ne_eq]
  exact ⟨fun h => h.1, fun h => ⟨h, fun _ => .inl (hreturns w)⟩⟩

/-- Both parsers answer as they should exactly on the slices that are not empty. -/
theorem parseResponse_acknowledges (slice : Slice) :
    (AcknowledgesExactly (parseRegisterResponse host) registerResponseRecordAvro slice w ↔
      slice.bytes ≠ []) ∧
    (AcknowledgesExactly (parseFinishResponse host) finishResponseRecordAvro slice w ↔
      slice.bytes ≠ []) :=
  ⟨parseAcknowledgement_exactly hlib hfiles hmem hreads registerResponse_mem slice,
   parseAcknowledgement_exactly hlib hfiles hmem hreads finishResponse_mem slice⟩

end host

theorem parseResponse_acknowledges_byte :
    AcknowledgesExactly (parseRegisterResponse Host.standard) registerResponseRecordAvro
      (.ofBytes [7] (by decide)) World.initial :=
  (parseResponse_acknowledges Libavro.generic_accessors Host.standard_installed
    Host.standard_mallocSucceeds Libavro.generic_readsFormat (.ofBytes [7] (by decide))).1.mpr
    (by decide)

/-- On the empty slice, which is the response, both return `-1`. -/
theorem parseResponse_refuses_response :
    ¬ AcknowledgesExactly (parseRegisterResponse Host.standard) registerResponseRecordAvro
      (.ofBytes [] (by decide)) World.initial ∧
    ¬ AcknowledgesExactly (parseFinishResponse Host.standard) finishResponseRecordAvro
      (.ofBytes [] (by decide)) World.initial := by
  have hlib : Host.standard.lib.Accessors := Libavro.generic_accessors
  have hempty : ¬ (Slice.ofBytes [] (by decide)).bytes ≠ [] := fun h => h rfl
  constructor
  · intro h
    exact hempty ((parseAcknowledgement_exactly hlib Host.standard_installed
      Host.standard_mallocSucceeds Libavro.generic_readsFormat registerResponse_mem _).mp h)
  · intro h
    exact hempty ((parseAcknowledgement_exactly hlib Host.standard_installed
      Host.standard_mallocSucceeds Libavro.generic_readsFormat finishResponse_mem _).mp h)

end HamsterAvro
