import Mathlib.Logic.Function.Basic
import Osproj.Drivers.Impl.Chardev

/-!
This module contains the runs of calls to the character devices after `devmem_init`: each minor of the memory device
is a stream of bytes that its reads take one by one.
-/

namespace Osproj

namespace Chardev

variable {σ : Type} {fuel : Nat}

theorem id_eq_id_iff {major major' : BitVec 16} : id major = id major' ↔ major = major' := by
  rw [id, id, BitVec.toNat_inj, ← BitVec.toInt_inj, BitVec.toInt_signExtend_of_le (by decide),
    BitVec.toInt_signExtend_of_le (by decide), BitVec.toInt_inj]

/--
The registry after the first `creat_cdev`. Without memory for the node there is nothing in the tree.
-/
def single (newdev node : Nat) (dev : Cdev σ) : Chardev σ where
  chardevRoot := {
    root := node
    node := fun p =>
      if p = node ∧ node ≠ 0 then some ⟨0, 0, 0, id dev.major, newdev, 0⟩ else none
  }
  cdev := fun p => if p = newdev then some dev else none

theorem creatCdev_empty (newdev node : Nat) (dev : Cdev σ)
    : creatCdev (fuel + 1) newdev node empty dev = if newdev = 0 then none else some (single newdev node dev) := by
  rw [creatCdev]
  split
  . rfl
  . by_cases hnode : node = 0
    . simp [Bst.bstInsert, Bst.get, Bst.put, empty, Bst.empty, single, hnode]
    . simp [Bst.bstInsert, Bst.get, Bst.put, empty, Bst.empty, single, hnode, Bst.set]

theorem bstSearch_single (newdev node : Nat) (dev : Cdev σ) (major : BitVec 16)
    : (single newdev node dev).chardevRoot.bstSearch (fuel + 2) node (id major)
        =
      some (if node ≠ 0 ∧ major = dev.major then newdev else 0) := by
  simp only [← @id_eq_id_iff major dev.major]
  by_cases hnode : node = 0
  . simp [Bst.bstSearch, Bst.bstSearch.loop, hnode]
  . have hderef : (single newdev node dev).chardevRoot.deref node = some ⟨0, 0, 0, id dev.major, newdev, 0⟩ := by
      simp [Bst.deref, single, hnode]
    rcases Nat.lt_trichotomy (id major) (id dev.major) with hlt | heq | hgt
    . simp [Bst.bstSearch, Bst.bstSearch.loop, hnode, hderef, hlt, Nat.ne_of_lt hlt]
    . simp [Bst.bstSearch, Bst.bstSearch.loop, hnode, hderef, heq]
    . simp [Bst.bstSearch, Bst.bstSearch.loop, hnode, hderef, hgt, Nat.ne_of_gt hgt, Nat.not_lt_of_gt hgt]

theorem call_single {newdev node : Nat} {dev : Cdev σ} {major : BitVec 16}
    {function : Cdev σ → Option (σ → Option (Int × σ))} {s : σ} (hnewdev : newdev ≠ 0)
    : (single newdev node dev).call (fuel + 2) major function s
        =
      if node ≠ 0 ∧ major = dev.major then
        ((function dev).getD (fun s => some (-ENODEV, s))) s
      else
        some (-ENODEV, s) := by
  have hroot : (single newdev node dev).chardevRoot.root = node := rfl
  have hcdev : (single newdev node dev).cdev newdev = some dev := by
    simp [single]
  rw [call, hroot, bstSearch_single]
  split
  . next h =>
    simp only [Option.bind_eq_bind, Option.bind_some, if_neg hnewdev, hcdev]
    cases function dev with
    | none => rfl
    | some function => rfl
  . rfl

theorem call_unregistered {newdev : Nat} {dev : Cdev σ} {major : BitVec 16}
    {function : Cdev σ → Option (σ → Option (Int × σ))} {s : σ} (hnewdev : newdev ≠ 0)
    : (single newdev 0 dev).call (fuel + 2) major function s = some (-ENODEV, s) := by
  rw [call_single hnewdev]
  exact if_neg (fun h => h.1 rfl)

end Chardev

namespace Devmem

inductive Call
  /--
  `inb` is what the ports hold when the call is made.
  -/
  | cread (major minor : BitVec 16) (inb : BitVec 16 → BitVec 8)
  | cwrite (major minor : BitVec 16) (data : BitVec 8)
  | cioctl (major minor : BitVec 16) (cmd : BitVec 32)

def step (fuel : Nat) (c : Chardev Devmem) (s : Devmem) : Call → Option (Int × Devmem)
  | .cread major minor inb => c.cread fuel major minor { s with inb := inb }
  | .cwrite major minor data => c.cwrite fuel major minor data s
  | .cioctl major minor cmd => c.cioctl fuel major minor cmd s

def results (fuel : Nat) (c : Chardev Devmem) (s : Devmem) : List Call → Option (List Int)
  | [] => some []
  | a :: calls => do
    let (result, s) ← step fuel c s a
    return result :: (← results fuel c s calls)

def IsRead (minor : BitVec 16) : Call → Prop
  | .cread major minor' _ => major = MAJOR_MEM ∧ minor' = minor
  | _ => False

instance (minor : BitVec 16) : DecidablePred (IsRead minor)
  | .cread major minor' _ => inferInstanceAs (Decidable (major = MAJOR_MEM ∧ minor' = minor))
  | .cwrite .. => inferInstanceAs (Decidable False)
  | .cioctl .. => inferInstanceAs (Decidable False)

def reads (minor : BitVec 16) : List Call → List Int → List Int
  | a :: calls, r :: rs => if IsRead minor a then r :: reads minor calls rs else reads minor calls rs
  | _, _ => []

def Call.inb : Call → BitVec 16 → BitVec 8
  | .cread _ _ inb => inb
  | _ => fun _ => 0

def byte (memory : Memory) (inb : BitVec 16 → BitVec 8) (minor : BitVec 16) (i : Nat) : BitVec 8 :=
  if minor = MINOR_DEVMEM_MEM then
    memory.load (i % 0x100000)
  else if minor = MINOR_DEVMEM_PORT then
    inb (BitVec.ofNat 16 i)
  else
    0

structure Served (memory : Memory) (pos : BitVec 16 → Nat) (s : Devmem) : Prop where
  memory : s.memory = memory
  memPtr : s.memPtr = MEM_DEV_LO + pos MINOR_DEVMEM_MEM % 0x100000
  portPtr : s.portPtr = BitVec.ofNat 16 (pos MINOR_DEVMEM_PORT)

variable {memory : Memory} {pos : BitVec 16 → Nat} {s : Devmem} {fuel newdev node : Nat}

theorem Served.inb (h : Served memory pos s) (inb : BitVec 16 → BitVec 8)
    : Served memory pos { s with inb := inb } := by
  exact ⟨h.memory, h.memPtr, h.portPtr⟩

theorem devmemRead_mem (h : Served memory pos s)
    : devmemRead MINOR_DEVMEM_MEM s
        =
      some ((memory.load (pos MINOR_DEVMEM_MEM % 0x100000)).toInt,
        { s with memPtr := MEM_DEV_LO + (pos MINOR_DEVMEM_MEM + 1) % 0x100000 }) := by
  generalize hk : pos MINOR_DEVMEM_MEM = k
  have hmemPtr : s.memPtr = 0xC0000000 + k % 0x100000 := hk ▸ h.memPtr
  have hlt : k % 0x100000 < 0x100000 := Nat.mod_lt k (by decide)
  have hlinear : linear s.memPtr = some (k % 0x100000) := by
    have hphy : s.memPtr - 0xC0000000 = k % 0x100000 := by omega
    rw [linear, lin2phy, if_neg (by omega), if_pos (by omega), hphy]
  have hnext
      : (if (s.memPtr + 1) % 0x100000000 ≥ MEM_DEV_HI then MEM_DEV_LO else (s.memPtr + 1) % 0x100000000)
          =
        MEM_DEV_LO + (k + 1) % 0x100000 := by
    unfold MEM_DEV_HI MEM_DEV_LO
    split
    . omega
    . omega
  rw [devmemRead, if_pos rfl, hlinear, ← hnext, h.memory]
  rfl

theorem devmemRead_port (s : Devmem)
    : devmemRead MINOR_DEVMEM_PORT s = some ((s.inb s.portPtr).toInt, { s with portPtr := s.portPtr + 1 }) := by
  have hlt := BitVec.toInt_lt (x := s.portPtr + 1)
  have hwrap : ¬ (s.portPtr + 1).toInt ≥ PORT_DEV_HI := by
    rw [PORT_DEV_HI]
    omega
  rw [devmemRead, if_neg (by decide), if_pos rfl]
  dsimp only
  rw [if_neg hwrap]
  rfl

theorem devmemRead_served (h : Served memory pos s) (minor : BitVec 16)
    : ∃ s', devmemRead minor s = some ((byte memory s.inb minor (pos minor)).toInt, s')
        ∧ Served memory (Function.update pos minor (pos minor + 1)) s' := by
  have ⟨hmemory, hmemPtr, hportPtr⟩ := h
  by_cases hmem : minor = MINOR_DEVMEM_MEM
  . subst hmem
    refine ⟨_, devmemRead_mem h, hmemory, ?_, ?_⟩
    . rw [Function.update_self]
    . rw [Function.update_of_ne (by decide)]
      exact hportPtr
  . by_cases hport : minor = MINOR_DEVMEM_PORT
    . subst hport
      refine ⟨{ s with portPtr := s.portPtr + 1 }, ?_, hmemory, ?_, ?_⟩
      . rw [devmemRead_port, hportPtr]
        rfl
      . rw [Function.update_of_ne (by decide)]
        exact hmemPtr
      . rw [Function.update_self, BitVec.ofNat_add, ← hportPtr]
        rfl
    . refine ⟨s, ?_, hmemory, ?_, ?_⟩
      . rw [devmemRead, byte, if_neg hmem, if_neg hport, if_neg hmem, if_neg hport]
        rfl
      . rw [Function.update_of_ne (Ne.symm hmem)]
        exact hmemPtr
      . rw [Function.update_of_ne (Ne.symm hport)]
        exact hportPtr

def device : Cdev Devmem where
  major := MAJOR_MEM
  read := some devmemRead
  write := some devmemWrite
  ioctl := none

theorem devmemInit_empty (fuel newdev node : Nat) (s : Devmem)
    : devmemInit (fuel + 1) newdev node .empty s
        =
      if newdev = 0 then
        none
      else
        some (.single newdev node device, { s with memPtr := MEM_DEV_LO, portPtr := PORT_DEV_LO }) := by
  rw [devmemInit, Chardev.creatCdev_empty]
  split
  . rfl
  . rfl

theorem results_cons {c : Chardev Devmem} {a : Call} {calls : List Call} {s' : Devmem} {r : Int} {rs : List Int}
    (hstep : step fuel c s a = some (r, s')) (hresults : results fuel c s' calls = some rs)
    : results fuel c s (a :: calls) = some (r :: rs) := by
  simp [results, hstep, hresults]

def after (pos : BitVec 16 → Nat) (a : Call) (minor : BitVec 16) : Nat :=
  if IsRead minor a then pos minor + 1 else pos minor

theorem after_read (pos : BitVec 16 → Nat) (minor : BitVec 16) (inb : BitVec 16 → BitVec 8)
    : after pos (.cread MAJOR_MEM minor inb) = Function.update pos minor (pos minor + 1) := by
  funext minor'
  by_cases h : minor' = minor
  . subst h
    rw [after, if_pos ⟨rfl, rfl⟩, Function.update_self]
  . rw [after, if_neg (fun hread => h hread.2.symm), Function.update_of_ne h]

theorem after_of_not_read {a : Call} (h : ∀ minor, ¬ IsRead minor a) : after pos a = pos := by
  funext minor
  exact if_neg (h minor)

theorem step_served (hnewdev : newdev ≠ 0) (hnode : node ≠ 0) (h : Served memory pos s) (a : Call)
    : ∃ r s', step (fuel + 2) (.single newdev node device) s a = some (r, s')
        ∧ (∀ minor, IsRead minor a → r = (byte memory a.inb minor (pos minor)).toInt)
        ∧ Served memory (after pos a) s' := by
  cases a with
  | cread major minor inb =>
    rw [step, Chardev.cread, Chardev.call_single hnewdev]
    by_cases hmajor : major = MAJOR_MEM
    . subst hmajor
      obtain ⟨s', hread, hs'⟩ := devmemRead_served (h.inb inb) minor
      refine ⟨(byte memory inb minor (pos minor)).toInt, s', ?_, ?_, ?_⟩
      . rw [if_pos ⟨hnode, rfl⟩]
        exact hread
      . intro minor' hminor'
        rw [hminor'.2]
        rfl
      . rw [after_read]
        exact hs'
    . have hnone (minor' : BitVec 16) : ¬ IsRead minor' (.cread major minor inb) := fun hread => hmajor hread.1
      refine ⟨-ENODEV, _, if_neg (fun hdev => hmajor hdev.2), fun minor' hread => absurd hread (hnone minor'), ?_⟩
      rw [after_of_not_read hnone]
      exact h.inb inb
  | cwrite major minor data =>
    have hwrite : ∃ r, step (fuel + 2) (.single newdev node device) s (.cwrite major minor data) = some (r, s) := by
      rw [step, Chardev.cwrite, Chardev.call_single hnewdev]
      split
      . by_cases hfull : minor = MINOR_DEVMEM_FULL
        . exact ⟨-ENOSPC, if_pos hfull⟩
        . exact ⟨-EPERM, if_neg hfull⟩
      . exact ⟨-ENODEV, rfl⟩
    obtain ⟨r, hwrite⟩ := hwrite
    refine ⟨r, s, hwrite, fun _ hread => hread.elim, ?_⟩
    rw [after_of_not_read (a := .cwrite major minor data) (fun _ hread => hread.elim)]
    exact h
  | cioctl major minor cmd =>
    refine ⟨-ENODEV, s, ?_, fun _ hread => hread.elim, ?_⟩
    . rw [step, Chardev.cioctl, Chardev.call_single hnewdev]
      exact ite_self _
    . rw [after_of_not_read (a := .cioctl major minor cmd) (fun _ hread => hread.elim)]
      exact h

theorem results_served (hnewdev : newdev ≠ 0) (hnode : node ≠ 0) (h : Served memory pos s) (calls : List Call)
    : ∃ rs, results (fuel + 2) (.single newdev node device) s calls = some rs
        ∧ ∀ minor, reads minor calls rs
            = (calls.filter (IsRead minor ·)).mapIdx
                (fun i a => (byte memory a.inb minor (pos minor + i)).toInt) := by
  induction calls generalizing pos s with
  | nil => exact ⟨[], rfl, fun minor => rfl⟩
  | cons a calls ih =>
    obtain ⟨r, s', hstep, hr, hs'⟩ := step_served hnewdev hnode h a
    obtain ⟨rs, hresults, hreads⟩ := ih hs'
    refine ⟨r :: rs, ?_, ?_⟩
    . exact results_cons hstep hresults
    . intro minor
      have hrest := hreads minor
      rw [reads]
      by_cases hread : IsRead minor a
      . rw [if_pos hread, List.filter_cons_of_pos (by simpa using hread), List.mapIdx_cons, hrest, hr minor hread]
        simp only [after, if_pos hread, Nat.add_assoc, Nat.add_comm 1, Nat.add_zero]
      . rw [if_neg hread, List.filter_cons_of_neg (by simpa using hread), hrest]
        simp only [after, if_neg hread]

theorem results_unregistered (hnewdev : newdev ≠ 0) (s : Devmem) (calls : List Call)
    : ∃ rs, results (fuel + 2) (.single newdev 0 device) s calls = some rs
        ∧ ∀ minor, reads minor calls rs = (calls.filter (IsRead minor ·)).map (fun _ => -ENODEV) := by
  induction calls generalizing s with
  | nil => exact ⟨[], rfl, fun minor => rfl⟩
  | cons a calls ih =>
    have hstep : ∃ s', step (fuel + 2) (.single newdev 0 device) s a = some (-ENODEV, s') := by
      cases a with
      | cread major minor inb => exact ⟨{ s with inb := inb }, Chardev.call_unregistered hnewdev⟩
      | cwrite major minor data => exact ⟨s, Chardev.call_unregistered hnewdev⟩
      | cioctl major minor cmd => exact ⟨s, Chardev.call_unregistered hnewdev⟩
    obtain ⟨s', hstep⟩ := hstep
    obtain ⟨rs, hresults, hreads⟩ := ih s'
    refine ⟨-ENODEV :: rs, ?_, ?_⟩
    . exact results_cons hstep hresults
    . intro minor
      rw [reads, hreads minor]
      by_cases hread : IsRead minor a
      . rw [if_pos hread, List.filter_cons_of_pos (by simpa using hread), List.map_cons]
      . rw [if_neg hread, List.filter_cons_of_neg (by simpa using hread)]

/--
After `devmem_init` the read number `k` of the memory's minor returns the byte at `k` modulo the size of the first
megabyte, and no read that reaches the device returns a negative number.
-/
def ReadsMemory (fuel newdev node : Nat) (s : Devmem) (calls : List Call) : Prop :=
  ∀ c t, devmemInit fuel newdev node .empty s = some (c, t) →
    ∃ rs, results fuel c t calls = some rs
      ∧ (∀ k r, (reads MINOR_DEVMEM_MEM calls rs)[k]? = some r →
          (linear (MEM_DEV_LO + k % 0x100000)).map (fun p => ((s.memory.load p).toNat : Int)) = some r)
      ∧ (node ≠ 0 → ∀ minor, ∀ r ∈ reads minor calls rs, 0 ≤ r)

theorem linear_first (k : Nat) : linear (MEM_DEV_LO + k % 0x100000) = some (k % 0x100000) := by
  have hlt : k % 0x100000 < 0x100000 := Nat.mod_lt k (by decide)
  have hphy : 0xC0000000 + k % 0x100000 - 0xC0000000 = k % 0x100000 := by omega
  rw [MEM_DEV_LO, linear, lin2phy, if_neg (by omega), if_pos (by omega), hphy]

theorem toInt_nonneg_iff (b : BitVec 8) : 0 ≤ b.toInt ↔ b < 0x80 := by
  rw [BitVec.toInt_eq_toNat_cond, BitVec.lt_def]
  split <;> simp <;> omega

theorem toInt_eq_toNat {b : BitVec 8} (h : b < 0x80) : b.toInt = b.toNat := by
  apply BitVec.toInt_eq_toNat_of_lt
  rw [BitVec.lt_def] at h
  have hlt : b.toNat < 128 := h
  omega

theorem readsMemory_of_served (hnewdev : newdev ≠ 0) (hnode : node ≠ 0) (s : Devmem) (calls : List Call)
    : ReadsMemory (fuel + 2) newdev node s calls
        ↔
      ∀ minor k a, (calls.filter (IsRead minor ·))[k]? = some a → byte s.memory a.inb minor k < 0x80 := by
  have hserved : Served s.memory (fun _ => 0) { s with memPtr := MEM_DEV_LO, portPtr := PORT_DEV_LO } :=
    ⟨rfl, rfl, rfl⟩
  obtain ⟨rs, hresults, hreads⟩ := @results_served s.memory (fun _ => 0) _ fuel _ _ hnewdev hnode hserved calls
  simp only [Nat.zero_add] at hreads
  constructor
  . intro h minor k a ha
    obtain ⟨rs', hresults', -, hnonneg⟩ := h _ _ (by rw [devmemInit_empty, if_neg hnewdev])
    rw [hresults, Option.some.injEq] at hresults'
    subst hresults'
    apply (toInt_nonneg_iff _).mp
    apply hnonneg hnode minor
    rw [hreads]
    apply List.mem_of_getElem? (i := k)
    rw [List.getElem?_mapIdx, ha]
    rfl
  . intro h c t hinit
    rw [devmemInit_empty, if_neg hnewdev, Option.some.injEq, Prod.mk.injEq] at hinit
    obtain ⟨rfl, rfl⟩ := hinit
    refine ⟨rs, hresults, ?_, ?_⟩
    . intro k r hr
      rw [hreads, List.getElem?_mapIdx, Option.map_eq_some_iff] at hr
      obtain ⟨a, ha, rfl⟩ := hr
      rw [linear_first, toInt_eq_toNat (h _ k a ha)]
      rfl
    . intro _ minor r hr
      rw [hreads, List.mem_mapIdx] at hr
      obtain ⟨k, hk, rfl⟩ := hr
      rw [toInt_nonneg_iff]
      exact h minor k _ (List.getElem?_eq_getElem hk)

theorem readsMemory_of_unregistered (hnewdev : newdev ≠ 0) (s : Devmem) (calls : List Call)
    : ReadsMemory (fuel + 2) newdev 0 s calls ↔ ∀ a ∈ calls, ¬ IsRead MINOR_DEVMEM_MEM a := by
  obtain ⟨rs, hresults, hreads⟩ :=
    @results_unregistered fuel _ hnewdev { s with memPtr := MEM_DEV_LO, portPtr := PORT_DEV_LO } calls
  constructor
  . intro h a ha hread
    obtain ⟨rs', hresults', hbytes, -⟩ := h _ _ (by rw [devmemInit_empty, if_neg hnewdev])
    rw [hresults, Option.some.injEq] at hresults'
    subst hresults'
    have hmem : a ∈ calls.filter (IsRead MINOR_DEVMEM_MEM ·) := List.mem_filter.mpr ⟨ha, decide_eq_true hread⟩
    obtain ⟨k, hk⟩ := List.getElem?_of_mem hmem
    have hbyte := hbytes k (-ENODEV) (by rw [hreads, List.getElem?_map, hk]; rfl)
    rw [linear_first, Option.map_some, Option.some.injEq, ENODEV] at hbyte
    omega
  . intro h c t hinit
    rw [devmemInit_empty, if_neg hnewdev, Option.some.injEq, Prod.mk.injEq] at hinit
    obtain ⟨rfl, rfl⟩ := hinit
    refine ⟨rs, hresults, ?_, fun hnode => absurd rfl hnode⟩
    intro k r hr
    have hnil : calls.filter (IsRead MINOR_DEVMEM_MEM ·) = [] := by
      rw [List.filter_eq_nil_iff]
      intro a ha
      simpa using h a ha
    rw [hreads, hnil] at hr
    simp at hr

theorem readsMemory_iff (hfuel : 1 < fuel) (newdev node : Nat) (s : Devmem) (calls : List Call)
    : ReadsMemory fuel newdev node s calls
        ↔
      (newdev ≠ 0 →
        (node = 0 → ∀ a ∈ calls, ¬ IsRead MINOR_DEVMEM_MEM a)
          ∧ (node ≠ 0 → ∀ minor k a, (calls.filter (IsRead minor ·))[k]? = some a →
              byte s.memory a.inb minor k < 0x80)) := by
  obtain ⟨fuel, rfl⟩ : ∃ n, fuel = n + 2 := ⟨fuel - 2, by omega⟩
  by_cases hnewdev : newdev = 0
  . refine iff_of_true ?_ (fun h => absurd hnewdev h)
    intro c t hinit
    rw [devmemInit_empty, if_pos hnewdev] at hinit
    cases hinit
  . by_cases hnode : node = 0
    . subst hnode
      rw [readsMemory_of_unregistered hnewdev]
      exact ⟨fun h _ => ⟨fun _ => h, fun hnode => absurd rfl hnode⟩, fun h => (h hnewdev).1 rfl⟩
    . rw [readsMemory_of_served hnewdev hnode]
      exact ⟨fun h _ => ⟨fun hzero => absurd hzero hnode, fun _ => h⟩, fun h => (h hnewdev).2 hnode⟩

def filled (b : BitVec 8) : Devmem where
  memory := { cell := fun _ => b, log := [] }
  inb := fun _ => b
  memPtr := 0
  portPtr := 0

theorem readsMemory_iff_one
    : 1 < 2 ∧ ReadsMemory 2 0xC0400000 0xC0400020 (filled 0x41) [.cread 1 1 (filled 0x41).inb] := by
  refine ⟨by decide, (readsMemory_iff (by decide) _ _ _ _).mpr fun _ => ⟨fun hnode => absurd hnode (by decide), ?_⟩⟩
  intro _ minor k a ha
  have hmem := (List.mem_filter.mp (List.mem_of_getElem? ha)).1
  rw [List.mem_singleton] at hmem
  subst hmem
  have hsmall : (0x41 : BitVec 8) < 0x80 := by decide
  unfold byte
  split
  . exact hsmall
  . split
    . exact hsmall
    . decide

/--
The byte `0xED` is returned as `-ENODEV`, which is what the second call returns for a device that is not there.
-/
theorem not_readsMemory
    : (∃ c t, devmemInit 2 0xC0400000 0xC0400020 .empty (filled 0xED) = some (c, t)
          ∧ results 2 c t [.cread 1 1 (filled 0xED).inb, .cread 7 1 (filled 0xED).inb] = some [-19, -ENODEV])
        ∧ ¬ ReadsMemory 2 0xC0400000 0xC0400020 (filled 0xED) [.cread 1 1 (filled 0xED).inb] := by
  constructor
  . exact ⟨_, _, rfl, rfl⟩
  . rw [readsMemory_of_served (by decide) (by decide)]
    intro h
    have hbyte := h 1 0 _ rfl
    revert hbyte
    decide

end Devmem
end Osproj
