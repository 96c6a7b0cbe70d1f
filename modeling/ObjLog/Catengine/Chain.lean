import ObjLog.Catengine.History
import ObjLog.Catengine.Reads
import ObjLog.Catengine.Store
/-!
# One linear history of heads

`Linear w`: the first body of the log is a new head or a takeover of one, and
each later body is one mutation of the head before it, made by the process the
log names. A process writes under its own name.

From this alone follow the orders on the log (`Linear.progress`), which process
a writer epoch belongs to (`Linear.session_of_epoch`), and what the history of a
head owes to the appends committed before it (`Linear.history`).
-/

namespace ObjLog.Catengine

open Lib Catformat Pmeta Blobstore
open UInt64 (le_iff_toNat_le le_of_lt le_refl le_trans lt_irrefl)

variable [Hashes] {config : Config} {pages pages' : Pages}

/-! ## Heads and their bytes -/

structure Encodes (config : Config) (head : Head) (body : Bytes) : Prop where
  marshal : marshalHead head = .ok body
  identity : validateConfigHead config head = .ok ()

namespace Encodes

variable {head head' : Head} {body body' : Bytes}

variable (h : Encodes config head body)
include h

theorem decode : config.decodeHead body = .ok head := by
  simp only [Config.decodeHead, checks_ok]
  exact ⟨head, parse_marshalHead h.marshal, h.identity, rfl⟩

theorem head_eq (h' : Encodes config head' body) : head = head' :=
  Except.ok.inj (h.decode.symm.trans h'.decode)

theorem body_eq (h' : Encodes config head body') : body = body' :=
  Except.ok.inj (h.marshal.symm.trans h'.marshal)

theorem partitionHead : config.partitionHead head = .ok (config.publicState head) := by
  simp only [Config.partitionHead, checks_ok, and_true]
  exact h.identity

theorem sameHead_iff (h' : Encodes config head' body') : sameHead head head' = true ↔ head = head' := by
  simp only [sameHead, h.marshal, h'.marshal, decide_eq_true_eq]
  constructor
  · rintro rfl
    exact h.head_eq h'
  · rintro rfl
    exact h.body_eq h'

end Encodes

/-- The head a commit made durable. -/
def Commit.head (config : Config) (c : Commit) : Head :=
  match config.decodeHead c.body with
  | .ok head => head
  | .error _ => emptyHead config 0

theorem Encodes.commit_head {head : Head} {c : Commit} (h : Encodes config head c.body) : c.head config = head := by
  rw [Commit.head, h.decode]

/-! ## One mutation -/

/-- The first head of a partition. -/
inductive Starts (config : Config) : Author → Head → Bytes → Prop
  | created {pid : Pid} {n : UInt64} {head : Head} {body : Bytes} :
      newHead config n = .ok (head, body) → Starts config (.initializer pid) head body
  | taken {pid : Pid} {head : Head} {body : Bytes} {m : Mutation} :
      newHead config 0 = .ok (head, body) → takeover config head pid = .ok m →
      Starts config (.opener pid) m.head m.headBody

/-- One takeover, append or retention of a head by a process. Openers take over; a session mutates
only a head that carries its own fence. -/
inductive Mutates (config : Config) (pages : Pages) : Author → Head → Mutation → Prop
  | takeover {pid : Pid} {head : Head} {m : Mutation} :
      takeover config head pid = .ok m → Mutates config pages (.opener pid) head m
  | append {pid : Pid} {head : Head} {segment : SegmentRef} {m : Mutation} :
      append config head segment = .ok m → head.header.writerID = pid → Stored pages m.pages →
      Mutates config pages (.session pid head.header.writerEpoch) head m
  | retention {pid : Pid} {head : Head} {before version : UInt64} {m : Mutation} :
      eval pages (applyRetention config head before version) = .ok m →
      head.header.appliedRetentionVersion < version → head.header.writerID = pid → Stored pages m.pages →
      Mutates config pages (.session pid head.header.writerEpoch) head m

/-- How a head compares with a later one. -/
structure Progress (head next : Head) : Prop where
  generation : head.header.generation ≤ next.header.generation
  writerEpoch : head.header.writerEpoch ≤ next.header.writerEpoch
  nextLSN : head.header.nextLSN ≤ next.header.nextLSN
  oldestLSN : head.header.oldestLSN ≤ next.header.oldestLSN
  segmentCount : head.header.segmentCount ≤ next.header.segmentCount
  retentionLSN : head.header.appliedRetentionLSN ≤ next.header.appliedRetentionLSN
  retentionVersion : head.header.appliedRetentionVersion ≤ next.header.appliedRetentionVersion

omit [Hashes] in
theorem Progress.refl (head : Head) : Progress head head :=
  ⟨le_refl _, le_refl _, le_refl _, le_refl _, le_refl _, le_refl _,
    le_refl _⟩

omit [Hashes] in
theorem Progress.trans {a b c : Head} (h : Progress a b) (h' : Progress b c) : Progress a c where
  generation := le_trans h.generation h'.generation
  writerEpoch := le_trans h.writerEpoch h'.writerEpoch
  nextLSN := le_trans h.nextLSN h'.nextLSN
  oldestLSN := le_trans h.oldestLSN h'.oldestLSN
  segmentCount := le_trans h.segmentCount h'.segmentCount
  retentionLSN := le_trans h.retentionLSN h'.retentionLSN
  retentionVersion := le_trans h.retentionVersion h'.retentionVersion

theorem takeover_progress {head : Head} {writerID : Arr 16} {m : Mutation}
    (h : takeover config head writerID = .ok m) : Progress head m.head := by
  obtain ⟨ht, _⟩ := takeover_ok h
  have heq := ht.eq
  refine ⟨le_of_lt ht.generation, le_of_lt ht.epoch, ?_, ?_, ?_, ?_, ?_⟩ <;>
    · rw [heq]
      exact le_refl _

theorem append_progress {head : Head} {segment : SegmentRef} {m : Mutation} (hr : Reachable config pages head)
    (h : append config head segment = .ok m) :
    Progress head m.head ∧ head.header.generation < m.head.header.generation ∧
      head.header.nextLSN < m.head.header.nextLSN := by
  obtain ⟨l, hi⟩ := hr.inv
  obtain ⟨active, ss, hc, _, hhead, _⟩ := append_ok h
  obtain ⟨hcount, hnext⟩ := append_counters h
  have hbase : head.header.nextLSN.toNat = segment.baseLSN.toNat := congrArg UInt64.toNat hc.base.symm
  have hrange : segment.baseLSN.toNat ≤ segment.lastLSN.toNat := by
    have hconv := hc.converts
    simp only [Config.leafEntry, SegmentRef.validate, checks_ok] at hconv
    exact le_iff_toNat_le.1 (UInt64.not_lt.1 hconv.1.2.2.2.1)
  have hgen : head.header.generation < m.head.header.generation := by
    rw [hhead]
    exact lt_succ_of_ne_max hc.generation
  have hlt : head.header.nextLSN < m.head.header.nextLSN := UInt64.lt_iff_toNat_lt.2 (by omega)
  refine ⟨⟨le_of_lt hgen, ?_, le_of_lt hlt, ?_, le_iff_toNat_le.2 (by omega), ?_, ?_⟩, hgen, hlt⟩
  · rw [hhead]
    exact le_refl _
  · rw [hhead]
    change head.header.oldestLSN ≤ if head.hasLastSegment then head.header.oldestLSN else (Config.entryOf segment).baseLSN
    split
    · exact le_refl _
    · rw [hc.base]
      exact hi.valid.header.oldest
  · rw [hhead]
    exact le_refl _
  · rw [hhead]
    exact le_refl _

/-- A newer policy moves the policy and the oldest LSN forward. -/
theorem retention_progress {head : Head} {before version : UInt64} {m : Mutation} (hr : Reachable config pages head)
    (h : eval pages (applyRetention config head before version) = .ok m)
    (hv : head.header.appliedRetentionVersion < version) (hs : Stored pages m.pages) :
    Progress head m.head ∧ RetentionApplied config head before version m := by
  obtain ⟨l, hi⟩ := hr.inv
  obtain ⟨k, hk, hkeq⟩ := applyRetention_inv hi h (Grows.refl _) hs
  obtain ⟨_, ⟨_, hsame, _⟩ | ⟨happ, _⟩⟩ := applyRetention_spec hi h (Grows.refl _) hs
  · exact absurd hv (by rw [hsame]; exact lt_irrefl _)
  have hheader := happ.header
  have hnext : m.head.header.nextLSN = head.header.nextLSN := by rw [hheader]
  refine ⟨⟨le_of_lt happ.generation, ?_, ?_, ?_, ?_, ?_, ?_⟩, happ⟩
  · rw [hheader]
    exact le_refl _
  · rw [hnext]
    exact le_refl _
  · -- what stays is part of what was there
    rw [le_iff_toNat_le, LsnTiles.head_eq hk.tiles, hkeq hv, hnext]
    cases hfirst : (l.filter (endsFrom (retentionTarget head before))).head? with
    | none => exact le_iff_toNat_le.1 hi.valid.header.oldest
    | some e =>
      have hmem := (List.mem_filter.1 (List.mem_of_mem_head? hfirst)).1
      exact (hi.tiles.mem_bounds hmem).1
  · rw [hheader]
    exact le_refl _
  · rw [hheader, le_iff_toNat_le]
    change _ ≤ (retentionTarget head before).toNat
    rw [retentionTarget_toNat]
    exact Nat.le_min.2 ⟨le_iff_toNat_le.1 happ.notBehind, le_iff_toNat_le.1 hi.valid.header.retention⟩
  · rw [hheader]
    exact le_of_lt hv

namespace Mutates

variable {author : Author} {head : Head} {m : Mutation}

variable (h : Mutates config pages author head m)
include h

theorem mono (hg : Grows pages pages') : Mutates config pages' author head m := by
  cases h with
  | takeover ht => exact .takeover ht
  | append ha hid hs => exact .append ha hid (hs.mono hg)
  | retention he hv hid hs => exact .retention ((reader_applyRetention _ _ _).eval_mono hg he) hv hid (hs.mono hg)

variable (hr : Reachable config pages head)
include hr

theorem reachable : Reachable config pages m.head := by
  cases h with
  | takeover ht => exact hr.takeover ht (Grows.refl _) (by rw [(takeover_ok ht).2.1]; simp [Stored])
  | append ha _ hs => exact hr.append ha (Grows.refl _) hs
  | retention he _ _ hs => exact hr.retention he (Grows.refl _) hs

theorem encodes : Encodes config m.head m.headBody := by
  obtain ⟨_, hi'⟩ := (h.reachable hr).inv
  refine ⟨?_, hi'.identity⟩
  cases h with
  | takeover ht => exact (takeover_ok ht).2.2.1
  | append ha _ _ =>
    obtain ⟨_, _, _, _, _, hm⟩ := append_ok ha
    exact hm
  | retention he _ _ hs =>
    obtain ⟨l, hi⟩ := hr.inv
    exact (applyRetention_spec hi he (Grows.refl _) hs).1

theorem progress : Progress head m.head ∧ head.header.generation < m.head.header.generation := by
  cases h with
  | takeover ht => exact ⟨takeover_progress ht, (takeover_ok ht).1.generation⟩
  | append ha _ _ => exact ⟨(append_progress hr ha).1, (append_progress hr ha).2.1⟩
  | retention he hv _ hs =>
    obtain ⟨hp, happ⟩ := retention_progress hr he hv hs
    exact ⟨hp, happ.generation⟩

/-- The fence of the head a mutation builds. -/
theorem fence : (author = .opener author.pid ∧ head.header.writerEpoch < m.head.header.writerEpoch ∧
      m.head.header.writerID = author.pid) ∨
    (author = .session author.pid head.header.writerEpoch ∧ m.head.header.writerEpoch = head.header.writerEpoch ∧
      m.head.header.writerID = head.header.writerID ∧ head.header.writerID = author.pid) := by
  cases h with
  | takeover ht =>
    obtain ⟨htake, _⟩ := takeover_ok ht
    exact .inl ⟨rfl, htake.epoch, by rw [htake.eq]; rfl⟩
  | append ha hid _ =>
    obtain ⟨_, _, _, _, hhead, _⟩ := append_ok ha
    exact .inr ⟨rfl, by rw [hhead]; rfl, by rw [hhead]; rfl, hid⟩
  | retention he hv hid hs =>
    obtain ⟨_, happ⟩ := retention_progress hr he hv hs
    exact .inr ⟨rfl, by rw [happ.header], by rw [happ.header], hid⟩

end Mutates

/-! ## The log -/

theorem Starts.reachable {author : Author} {head : Head} {body : Bytes} (h : Starts config author head body) :
    Reachable config pages head ∧ Encodes config head body := by
  cases h with
  | created hn =>
    refine ⟨.new hn, ?_, (show Inv config pages _ [] from newHead_inv hn).identity⟩
    simp only [newHead, checks_ok] at hn
    obtain ⟨_, body, hm, rfl, rfl⟩ := hn
    exact hm
  | taken hn ht =>
    have hm : Mutates config pages (.opener _) _ _ := .takeover ht
    exact ⟨hm.reachable (.new hn), hm.encodes (.new hn)⟩

structure Linear (config : Config) (w : World) : Prop where
  first : ∀ c, w.log[0]? = some c → ∃ head, Starts config c.author head c.body
  next : ∀ n b c, w.log[n]? = some b → w.log[n + 1]? = some c →
    ∃ m, Mutates config w.pages c.author (b.head config) m ∧ m.headBody = c.body

omit [Hashes] in
theorem World.exists_le {w : World} {j k : Nat} {c : Commit} (hjk : j ≤ k) (hc : w.log[k]? = some c) :
    ∃ b, w.log[j]? = some b :=
  ⟨_, List.getElem?_eq_getElem (Nat.lt_of_le_of_lt hjk (List.getElem?_eq_some_iff.1 hc).1)⟩

namespace Linear

variable {w : World} {n k : Nat} {b c : Commit}

variable (h : Linear config w)
include h

theorem reachable (hc : w.log[n]? = some c) :
    Reachable config w.pages (c.head config) ∧ Encodes config (c.head config) c.body := by
  induction n generalizing c with
  | zero =>
    obtain ⟨head, hs⟩ := h.first c hc
    obtain ⟨hr, he⟩ := hs.reachable
    rw [he.commit_head]
    exact ⟨hr, he⟩
  | succ n ih =>
    obtain ⟨b, hb⟩ := World.exists_le (Nat.le_succ n) hc
    obtain ⟨m, hm, hbody⟩ := h.next n b c hb hc
    obtain ⟨hr, _⟩ := ih hb
    have he := hm.encodes hr
    rw [hbody] at he
    rw [he.commit_head]
    exact ⟨hm.reachable hr, he⟩

/-- The mutation between two neighbours. -/
theorem step (hb : w.log[n]? = some b) (hc : w.log[n + 1]? = some c) :
    ∃ m, Mutates config w.pages c.author (b.head config) m ∧ m.head = c.head config ∧ m.headBody = c.body := by
  obtain ⟨m, hm, hbody⟩ := h.next n b c hb hc
  have he := hm.encodes (h.reachable hb).1
  rw [hbody] at he
  exact ⟨m, hm, he.commit_head.symm, hbody⟩

theorem step_progress (hb : w.log[n]? = some b) (hc : w.log[n + 1]? = some c) :
    Progress (b.head config) (c.head config) ∧
      (b.head config).header.generation < (c.head config).header.generation := by
  obtain ⟨m, hm, hhead, _⟩ := h.step hb hc
  rw [← hhead]
  exact hm.progress (h.reachable hb).1

theorem progress (hnk : n ≤ k) (hb : w.log[n]? = some b) (hc : w.log[k]? = some c) :
    Progress (b.head config) (c.head config) := by
  induction k generalizing c with
  | zero =>
    obtain rfl := Nat.le_zero.1 hnk
    obtain rfl : b = c := Option.mem_unique hb hc
    exact .refl _
  | succ k ih =>
    rcases Nat.lt_or_eq_of_le hnk with hlt | rfl
    · obtain ⟨d, hd⟩ := World.exists_le (Nat.le_succ k) hc
      exact (ih (Nat.le_of_lt_succ hlt) hd).trans (h.step_progress hd hc).1
    · obtain rfl : b = c := Option.mem_unique hb hc
      exact .refl _

theorem generation_lt (hnk : n < k) (hb : w.log[n]? = some b) (hc : w.log[k]? = some c) :
    (b.head config).header.generation < (c.head config).header.generation := by
  obtain ⟨d, hd⟩ := World.exists_le (Nat.succ_le_of_lt hnk) hc
  have hlt := (h.step_progress hb hd).2
  have hle := (h.progress (Nat.succ_le_of_lt hnk) hd hc).generation
  rw [UInt64.lt_iff_toNat_lt] at *
  rw [le_iff_toNat_le] at hle
  omega

/-- No head is durable twice. -/
theorem index_eq (hb : w.log[n]? = some b) (hc : w.log[k]? = some c) (heq : b.head config = c.head config) : n = k := by
  rcases Nat.lt_trichotomy n k with hlt | rfl | hlt
  · have := h.generation_lt hlt hb hc
    rw [heq] at this
    exact absurd this (lt_irrefl _)
  · rfl
  · have := h.generation_lt hlt hc hb
    rw [heq] at this
    exact absurd this (lt_irrefl _)

/-! ### Fences -/

/-- After the first head, a head carries the id of the process that made it durable. -/
theorem owner (hc : w.log[n + 1]? = some c) : (c.head config).header.writerID = c.author.pid := by
  obtain ⟨b, hb⟩ := World.exists_le (Nat.le_succ n) hc
  obtain ⟨m, hm, hhead, _⟩ := h.step hb hc
  rw [← hhead]
  rcases hm.fence (h.reachable hb).1 with ⟨_, _, hid⟩ | ⟨_, _, hsame, hid⟩
  · exact hid
  · exact hsame.trans hid

/-- A session commits only under its own epoch, on a head of that epoch. -/
theorem session_epoch (hc : w.log[n]? = some c) {pid : Pid} {e : UInt64}
    (ha : c.author = .session pid e) : (c.head config).header.writerEpoch = e ∧ ∃ k, n = k + 1 := by
  cases n with
  | zero =>
    obtain ⟨head, hs⟩ := h.first c hc
    rw [ha] at hs
    cases hs
  | succ n =>
    obtain ⟨b, hb⟩ := World.exists_le (Nat.le_succ n) hc
    obtain ⟨m, hm, hhead, _⟩ := h.step hb hc
    rw [← hhead]
    rcases hm.fence (h.reachable hb).1 with ⟨hop, _⟩ | ⟨hses, hep, _⟩
    · rw [ha] at hop
      cases hop
    · rw [ha] at hses
      injection hses with _ he
      exact ⟨hep.trans he.symm, n, rfl⟩

/-- An opener commits under an epoch above every earlier one. -/
theorem opener_epoch (hnk : n < k) (hb : w.log[n]? = some b) (hc : w.log[k]? = some c)
    {pid : Pid} (ha : c.author = .opener pid) :
    (b.head config).header.writerEpoch < (c.head config).header.writerEpoch := by
  obtain ⟨k, rfl⟩ := Nat.exists_eq_succ_of_ne_zero (Nat.ne_of_gt (Nat.lt_of_le_of_lt (Nat.zero_le n) hnk))
  obtain ⟨d, hd⟩ := World.exists_le (Nat.le_succ k) hc
  have hle := (h.progress (Nat.le_of_lt_succ hnk) hb hd).writerEpoch
  obtain ⟨m, hm, hhead, _⟩ := h.step hd hc
  rw [← hhead]
  rcases hm.fence (h.reachable hd).1 with ⟨_, hlt, _⟩ | ⟨hses, _⟩
  · rw [UInt64.lt_iff_toNat_lt] at *
    rw [le_iff_toNat_le] at hle
    omega
  · rw [ha] at hses
    cases hses

/-- While the epoch stays the same, only the session that owns it commits. -/
theorem session_of_epoch (hnk : n < k) (hb : w.log[n]? = some b) (hc : w.log[k]? = some c)
    (he : (c.head config).header.writerEpoch = (b.head config).header.writerEpoch) :
    c.author = .session c.author.pid (b.head config).header.writerEpoch ∧
      (c.head config).header.writerID = (b.head config).header.writerID := by
  induction k generalizing c with
  | zero => omega
  | succ k ih =>
    obtain ⟨d, hd⟩ := World.exists_le (Nat.le_succ k) hc
    have hbd := (h.progress (Nat.le_of_lt_succ hnk) hb hd).writerEpoch
    have hdc := (h.step_progress hd hc).1.writerEpoch
    have hde : (d.head config).header.writerEpoch = (b.head config).header.writerEpoch := by
      rw [he] at hdc
      exact UInt64.le_antisymm hdc hbd
    have hid : (d.head config).header.writerID = (b.head config).header.writerID := by
      rcases Nat.lt_or_eq_of_le (Nat.le_of_lt_succ hnk) with hlt | rfl
      · exact (ih hlt hd hde).2
      · obtain rfl : b = d := Option.mem_unique hb hd
        rfl
    obtain ⟨m, hm, hhead, _⟩ := h.step hd hc
    rw [← hhead] at he ⊢
    rcases hm.fence (h.reachable hd).1 with ⟨_, hlt, _⟩ | ⟨hses, _, hsame, _⟩
    · rw [he, hde] at hlt
      exact absurd hlt (lt_irrefl _)
    · rw [hde] at hses
      exact ⟨hses, hsame.trans hid⟩

/-- A writer epoch has one writer id. -/
theorem writerID_eq (hb : w.log[n]? = some b) (hc : w.log[k]? = some c)
    (he : (c.head config).header.writerEpoch = (b.head config).header.writerEpoch) :
    (c.head config).header.writerID = (b.head config).header.writerID := by
  rcases Nat.lt_trichotomy n k with hlt | rfl | hlt
  · exact (h.session_of_epoch hlt hb hc he).2
  · obtain rfl : b = c := Option.mem_unique hb hc
    rfl
  · exact (h.session_of_epoch hlt hc hb he.symm).2.symm

end Linear

end ObjLog.Catengine
