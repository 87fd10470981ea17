import ToyTstat.Code.ModelIface
import ToyTstat.Model.Dump

/-!
# A dump that does not fit

The text is cut off at the end of the buffer, and the caller is not told.
-/

open CLib ToyTstat.Code ToyTstat.Jsmn ToyTstat.Jems

namespace ToyTstat.Model

variable {model : tstat_model_t} {memory : List Byte} {buf : Ptr} {buflen : Nat} {jems_levels : List jems_level_t}

/-- Every write is in the first `buflen` bytes: what is behind them stays, and it need not be there. The buffer holds
the beginning of the text that has room in it, and NUL. -/
theorem dump_bounded (model : tstat_model_t) (memory : List Byte) (buflen : Nat) (jems_levels : List jems_level_t)
    (hpos : 1 ≤ buflen) (hsize : buflen < 2 ^ 64) (hbuf : buflen ≤ memory.length)
    (hlevels : jems_levels.length = MAX_JEMS_LEVELS) :
    ∃ after, tstat_model_dump_json model memory buflen jems_levels = some after ∧
      after.length = memory.length ∧ (∀ i, buflen ≤ i → after[i]? = memory[i]?) ∧
      after.take (min (dumpText model).length (buflen - 1) + 1) = (dumpText model).take (buflen - 1) ++ [0] := by
  have hlength : ((dumpText model).take (buflen - 1)).length = min (dumpText model).length (buflen - 1) := by
    rw [List.length_take, Nat.min_comm]
  have hwritten : ((dumpText model).take (buflen - 1) ++ [0]).length =
      min (dumpText model).length (buflen - 1) + 1 := by
    rw [List.length_append, hlength, List.length_singleton]
  refine ⟨_, dump_buffer model hpos hsize hbuf hlevels, ?_, ?_, ?_⟩
  · rw [List.append_cons, List.length_append, hwritten, List.length_drop]
    omega
  · intro i hi
    rw [List.append_cons, List.getElem?_append_right (by omega), List.getElem?_drop, hwritten,
      Nat.add_sub_of_le (by omega)]
  · rw [List.append_cons, List.take_left' hwritten]

theorem dump_bounded_ten :
    ∃ after, tstat_model_dump_json ⟨21, 22, 18, true, false, 7⟩ (List.replicate 12 255) 10
        (List.replicate 3 ⟨0, false⟩) = some after ∧
      after.length = 12 ∧ (∀ i, 10 ≤ i → after[i]? = (List.replicate 12 255)[i]?) ∧
      after.take (min (dumpText ⟨21, 22, 18, true, false, 7⟩).length 9 + 1) =
        (dumpText ⟨21, 22, 18, true, false, 7⟩).take 9 ++ [0] :=
  dump_bounded ⟨21, 22, 18, true, false, 7⟩ (List.replicate 12 255) 10 (List.replicate 3 ⟨0, false⟩) (by decide)
    (by decide) (by decide) rfl

/-! ## Telling the caller -/

/-- `NULL` is returned exactly when the text with its NUL does not fit, and nothing is sent but the whole text. -/
structure ReportsTruncation (model : tstat_model_t) (buf : Ptr) (memory : List Byte) (buflen : Nat)
    (jems_levels : List jems_level_t) : Prop where
  returns : ∃ after returned, model_dump_json model buf memory buflen jems_levels = some (after, returned) ∧
    (returned = NULL ↔ buflen < (dumpText model).length + 1) ∧ (buflen = 0 → after = memory)
  sends : ∀ sent, model_iface_push_text buflen model buf memory jems_levels = some (some sent) → sent = dumpText model

theorem dumpText_cons (model : tstat_model_t) : ∃ rest, dumpText model = ch '{' :: rest :=
  ⟨_, rfl⟩

theorem dump_no_memory (model : tstat_model_t) (hlevels : jems_levels.length = MAX_JEMS_LEVELS) :
    tstat_model_dump_json model [] 0 jems_levels = none := by
  -- there is no byte to write the text to
  obtain ⟨rest, htext⟩ := dumpText_cons model
  rw [dump_writes model [] 0 hlevels, htext]
  rfl

theorem dumpText_ne_zero (model : tstat_model_t) : 0 ∉ dumpText model := by
  have hok := Json.doc_ok (dumpJson model)
  have h0 := Doc.text_ne_zero _ hok
  rwa [Json.doc_text] at h0

theorem reports_of_fits (hnull : buf ≠ NULL) (hsize : buflen < 2 ^ 64) (hbuf : buflen ≤ memory.length)
    (hlevels : jems_levels.length = MAX_JEMS_LEVELS) (hfits : (dumpText model).length < buflen) :
    ReportsTruncation model buf memory buflen jems_levels := by
  obtain ⟨junk, hdump⟩ := dump_text model hsize hbuf hlevels hfits
  have hcall : model_dump_json model buf memory buflen jems_levels = some (dumpText model ++ 0 :: junk, buf) := by
    rw [model_dump_json, hdump]
    rfl
  constructor
  · refine ⟨_, _, hcall, ⟨fun h => absurd h hnull, ?_⟩, ?_⟩
    · intro hlong
      omega
    · intro hzero
      omega
  · intro sent hsent
    have hlen := strlen_append_zero (dumpText model) junk (dumpText_ne_zero model)
    rw [model_iface_push_text, hcall, Option.bind_some, if_neg hnull, hlen] at hsent
    simpa using hsent.symm

/-- `buf` is never told from `NULL`. `hnull` says that nothing lies at `NULL`. -/
theorem reports_truncation_iff (model : tstat_model_t) (buf : Ptr) (memory : List Byte) (buflen : Nat)
    (jems_levels : List jems_level_t) (hnull : buf = NULL → memory = []) (hsize : buflen < 2 ^ 64)
    (hbuf : buflen ≤ memory.length) (hlevels : jems_levels.length = MAX_JEMS_LEVELS) :
    ReportsTruncation model buf memory buflen jems_levels ↔ (dumpText model).length < buflen := by
  constructor
  · rintro ⟨⟨after, returned, hcall, hreturned, -⟩, -⟩
    obtain ⟨after', hdump, heq⟩ := Option.map_eq_some_iff.mp hcall
    obtain rfl : buf = returned := congrArg Prod.snd heq
    by_contra hlong
    have hempty := hnull (hreturned.mpr (by omega))
    rw [hempty, List.length_nil, Nat.le_zero] at hbuf
    rw [hempty, hbuf, dump_no_memory model hlevels] at hdump
    cases hdump
  · intro hfits
    have hne : buf ≠ NULL := by
      intro heq
      rw [hnull heq, List.length_nil] at hbuf
      omega
    exact reports_of_fits hne hsize hbuf hlevels hfits

theorem reports_truncation_long :
    ReportsTruncation ⟨21, 22, 18, true, false, 7⟩ 16 (List.replicate 400 0) 400 (List.replicate 3 ⟨0, false⟩) :=
  (reports_truncation_iff ⟨21, 22, 18, true, false, 7⟩ 16 (List.replicate 400 0) 400 (List.replicate 3 ⟨0, false⟩)
    (fun h => absurd h (by decide)) (by decide) (by rw [List.length_replicate]) rfl).mpr
    (Nat.lt_of_le_of_lt (dumpText_length _) (by decide))

/-- With ten bytes for the text, nine bytes are sent. -/
theorem truncation_not_reported :
    model_iface_push_text 10 ⟨21, 22, 18, true, false, 7⟩ 16 (List.replicate 10 0) (List.replicate 3 ⟨0, false⟩) =
        some (some (ascii "\x7b\"ambient")) ∧
      ¬ ReportsTruncation ⟨21, 22, 18, true, false, 7⟩ 16 (List.replicate 10 0) 10 (List.replicate 3 ⟨0, false⟩) := by
  have hsent : model_iface_push_text 10 ⟨21, 22, 18, true, false, 7⟩ 16 (List.replicate 10 0)
      (List.replicate 3 ⟨0, false⟩) = some (some (ascii "\x7b\"ambient")) := by
    decide +kernel
  refine ⟨hsent, fun hreports => ?_⟩
  have hcut := hreports.sends _ hsent
  exact absurd hcut (by decide +kernel)

end ToyTstat.Model
