import Mathlib.Data.List.Forall2
import ObjLog.Stream.Bytes
/-!
# The request that `Commit` makes

Once the workers have returned and the jobs are closed, the receipts in order are
those of the parts in order, and the request built from them passes the provider's
own check.
-/

namespace ObjLog.Stream

open Lib Multipart

variable {receipts : List Receipt}

/-- What the options that were accepted say of the part size. -/
theorem Settings.partSize_limits (cfg : Settings) :
    cfg.partSize ≤ cfg.limits.maxPartSize.toNat ∧ cfg.limits.minPartSize.toNat ≤ cfg.partSize := by
  have hvalid := cfg.valid
  simp only [validateMultipartOptions, checks_ok] at hvalid
  obtain ⟨hpositive, -, -, -, hmax, hmin, -⟩ := hvalid
  unfold Settings.partSize
  omega

/-- Parts of which all but the last are full take up more than the full ones. -/
theorem length_parts_le {size count : Nat} {parts : List Bytes} (hpositive : ∀ p ∈ parts, 0 < p.length)
    (hfull : ∀ p ∈ parts.dropLast, p.length = size) (htotal : parts.flatten.length ≤ size * count) :
    parts.length ≤ count := by
  rcases List.eq_nil_or_concat parts with rfl | ⟨front, last, rfl⟩
  · exact Nat.zero_le _
  rw [List.concat_eq_append] at *
  have hlast := hpositive last (by simp)
  rw [List.dropLast_concat] at hfull
  have hfront : front.flatten.length = size * front.length := by
    rw [List.length_flatten, List.map_congr_left hfull, List.map_const', List.sum_replicate_nat, Nat.mul_comm]
  have hlt : size * front.length < size * count := by
    rw [List.flatten_append, List.length_append, hfront] at htotal
    simp only [List.flatten_singleton] at htotal
    omega
  rw [List.length_append, List.length_singleton]
  exact Nat.lt_of_mul_lt_mul_left hlt

theorem exists_of_map_eq {α β γ : Type} {f : α → γ} {g : β → γ} {xs : List α} {ys : List β} (h : xs.map f = ys.map g)
    {x : α} (hx : x ∈ xs) : ∃ y ∈ ys, f x = g y := by
  have hmem : f x ∈ ys.map g := h ▸ List.mem_map_of_mem hx
  obtain ⟨y, hy, hyx⟩ := List.mem_map.1 hmem
  exact ⟨y, hy, hyx.symm⟩

theorem orderedReceipts_ok {w : World} (h : w.orderedReceipts = .ok receipts) :
    receipts.Perm (w.receipts.map Prod.snd) ∧ receipts.length = w.nextPart - 1 ∧ validateReceipts receipts = .ok () := by
  simp only [World.orderedReceipts, checks_ok, not_not] at h
  obtain ⟨hcount, hvalid, rfl⟩ := h
  have hperm := List.mergeSort_perm (w.receipts.map Prod.snd) fun a b => decide (a.number ≤ b.number)
  refine ⟨hperm, ?_, hvalid⟩
  rw [hperm.length_eq, List.length_map, hcount]

theorem validateReceipts_ok (h : validateReceipts receipts = .ok ()) :
    receipts.map Receipt.number = List.range' 1 receipts.length := by
  simp only [validateReceipts, checks_ok] at h
  exact (validateReceiptsFrom_ok.1 h.2).1

variable [Hashes] {cfg : Settings} {w : World}

/-- The receipts in order are those of the parts in order. -/
theorem Inv.uploaded (h : Inv cfg w) (hreceipts : w.orderedReceipts = .ok receipts) :
    List.Forall₂ (ReceiptFor w.log) w.parts receipts := by
  obtain ⟨hperm, hlength, hvalid⟩ := orderedReceipts_ok hreceipts
  have hnumbers := validateReceipts_ok hvalid
  rw [List.forall₂_iff_get]
  refine ⟨by rw [hlength, h.number]; omega, fun k hk hk' => ?_⟩
  have hnumber : (receipts.get ⟨k, hk'⟩).number = k + 1 := by
    have hget := congrArg (fun l => l[k]?) hnumbers
    simp only [List.getElem?_map, List.getElem?_eq_getElem hk', Option.map_some, List.getElem?_range' hk'] at hget
    rw [List.get_eq_getElem, Option.some.inj hget]
    omega
  obtain ⟨entry, hentry, hsnd⟩ := List.mem_map.1 (hperm.mem_iff.1 (List.get_mem receipts ⟨k, hk'⟩))
  obtain ⟨hkey, n, part, hn, hpart, hfor⟩ := h.receipts entry.1 entry.2 hentry
  rw [hsnd] at hkey hfor
  obtain rfl : n = k := by omega
  rw [List.getElem?_eq_getElem hk] at hpart
  rw [List.get_eq_getElem, Option.some.inj hpart]
  exact hfor

/-- `Commit` calls the session with the receipts of what was written. -/
theorem Inv.request (h : Inv cfg w) (hgood : ¬Bad w.state) (hclosed : w.jobsClosed = true)
    (hreceipts : w.orderedReceipts = .ok receipts) :
    RequestOk cfg w.parts w.log ⟨receipts, w.offset, Hashes.sha256 w.hashed⟩ := by
  obtain ⟨hperm, hlength, hvalid⟩ := orderedReceipts_ok hreceipts
  have huploaded := h.uploaded hreceipts
  have haccepted := h.accepted hgood (.inr hclosed)
  have hbytes : w.parts.flatten = w.hashed := by
    rw [h.bytes hgood, h.sent hgood hclosed, List.append_nil]
  obtain ⟨hoffset, hobject, hcount⟩ := h.size
  refine ⟨validateReceipts_ok hvalid, huploaded, hbytes.trans haccepted, h.parts.2, ?_, ?_, ?_⟩
  · rw [← haccepted, hoffset]
  · rw [← haccepted]
  have hsizes : receipts.map (fun r => r.sizeBytes.toNat) = w.parts.map List.length := by
    rw [← List.forall₂_eq_eq_eq, List.forall₂_map_left_iff, List.forall₂_map_right_iff]
    exact huploaded.flip.imp fun _ _ hr => hr.size
  have hsum : (receipts.map fun r => r.sizeBytes.toNat).sum = w.offset.toNat := by
    rw [hsizes, ← List.length_flatten, hbytes, hoffset]
  have hmax : ∀ r ∈ receipts, r.sizeBytes ≤ cfg.limits.maxPartSize := fun r hr => by
    obtain ⟨p, hp, hpr⟩ := exists_of_map_eq hsizes hr
    rw [UInt64.le_iff_toNat_le, hpr]
    exact (h.parts.1 p hp).2.trans cfg.partSize_limits.1
  have hmin : ∀ r ∈ receipts.dropLast, cfg.limits.minPartSize ≤ r.sizeBytes := fun r hr => by
    have hdrop : receipts.dropLast.map (fun r => r.sizeBytes.toNat) = w.parts.dropLast.map List.length := by
      rw [List.map_dropLast, List.map_dropLast, hsizes]
    obtain ⟨p, hp, hpr⟩ := exists_of_map_eq hdrop hr
    rw [UInt64.le_iff_toNat_le, hpr, h.parts.2 p hp]
    exact cfg.partSize_limits.2
  have hroom : (0 : UInt64).toNat + (receipts.map fun r => r.sizeBytes.toNat).sum < 2 ^ 64 := by
    rw [hsum]
    simpa using w.offset.toNat_lt
  have hparts : receipts.length ≤ cfg.limits.maxPartCount := by
    rw [← huploaded.length_eq]
    exact length_parts_le (fun p hp => (h.parts.1 p hp).1) h.parts.2 (by rw [hbytes]; exact hcount)
  simp only [validateCommitRequest, checks_ok]
  refine ⟨hvalid, Nat.not_lt.2 hparts, w.offset, ?_, fun hne => hne rfl, UInt64.not_lt.2 ?_⟩
  · rw [receiptsSize_ok hmax hmin hroom, hsum]
    simp
  · rw [UInt64.le_iff_toNat_le, ← hoffset]
    exact hobject

end ObjLog.Stream
