import Osproj.Kernel.Impl.Isr

/-!
This module contains what the stubs of the exceptions do to the interrupted code. Whatever the function does that a stub
calls, if it returns then the interrupted code goes on with every register as it was. The stub of the page fault is the
one that changes something: it copies the address of the faulting code to where its function looks for it, over a half
of the flags.
-/

namespace Osproj

open X86

namespace Isr

/--
The locations that `no_err_code` and `err_code` save, from the frame of the processor downwards.
-/
def saveList : List Loc :=
  [.reg .eax, .reg .ebx, .reg .ecx, .reg .edx, .reg .esi, .reg .edi, .reg .ebp, .seg .ds, .seg .es, .seg .fs]

/--
The frame of the processor at `a`, as it interrupts `s`.
-/
structure Frame (m : Memory) (a : Nat) (s : State) : Prop where
  eip : m.loadWord a = s.eip.toNat
  cs : m.loadWord (a + 4) % 0x10000 = (s.seg .cs).toNat
  eflags : m.loadWord (a + 8) = s.eflags.toNat

/--
A stub has saved the locations `ls`, and the others are as they were in `s`. It started with the memory `m`.
-/
structure Entered (s : State) (m : Memory) (ls : List Loc) (t : State) : Prop where
  esp : t.esp = s.esp - 12 - size ls
  saved : Saved t.mem (s.esp - 12) s.get ls
  kept : ∀ l ∈ saveList, l ∉ ls → t.get l = s.get l
  seg : t.seg = s.seg
  cr3 : t.cr3 = s.cr3
  disabled : t.eflags &&& 0x200 = 0
  load : ∀ b, b < s.esp - 12 - size ls ∨ s.esp - 12 ≤ b → t.mem.load b = m.load b

/--
The stub that interrupted `s` calls its function in the state `c`. Above the arguments are the saved registers and the
frame of the processor.
-/
structure AtCall (s : State) (m : Memory) (code : BitVec 32) (c : State) : Prop where
  esp : c.esp = s.esp - 54
  saved : Saved c.mem (s.esp - 12) s.get saveList
  segments : c.seg = fun r => if r = Seg.ds ∨ r = .es ∨ r = .fs then 0x10 else s.seg r
  cr3 : c.cr3 = s.cr3
  disabled : c.eflags &&& 0x200 = 0
  pointer : c.mem.loadWord c.esp = s.esp - 6
  code : c.mem.loadWord (c.esp + 4) = code.toNat
  load : ∀ b, b < s.esp - 54 ∨ s.esp - 12 ≤ b → c.mem.load b = m.load b

variable {function : BitVec 32 → State → Option State} {s t c c' d : State} {a code : BitVec 32} {m m' : Memory} {e : Nat}

theorem Frame.congr (h : Frame m e s) (hload : ∀ b, e ≤ b → b < e + 12 → m'.load b = m.load b) : Frame m' e s := by
  have hword (k : Nat) (hk : k ≤ 8) : m'.loadWord (e + k) = m.loadWord (e + k) := by
    apply Memory.loadWord_congr
    intro b hlo hhi
    exact hload b (by omega) (by omega)
  have hfirst := hword 0 (by omega)
  rw [Nat.add_zero] at hfirst
  constructor
  . rw [hfirst]
    exact h.eip
  . rw [hword 4 (by omega)]
    exact h.cs
  . rw [hword 8 (by omega)]
    exact h.eflags

theorem Frame.iret (h : Frame t.mem t.esp s) (hlt : t.esp + 12 < 0x100000000)
    : t.iret
        =
      { t with
        eip := s.eip
        seg := (t.setSeg .cs (s.seg .cs)).seg
        eflags := s.eflags
        esp := t.esp + 12 } := by
  have hcs : BitVec.ofNat 16 (t.mem.loadWord (t.esp + 4)) = s.seg .cs := by
    rw [← BitVec.toNat_inj, BitVec.toNat_ofNat]
    exact h.cs
  rw [State.iret, State.above_of_lt (by omega), State.above_of_lt (by omega), State.above_of_lt (by omega), h.eip,
    h.eflags, hcs, BitVec.ofNat_toNat, BitVec.ofNat_toNat, BitVec.setWidth_eq, BitVec.setWidth_eq]

namespace Entered

theorem pushAll {ls ls' : List Loc} (h : Entered s m ls t) (hls : ls ++ ls' = saveList) (hnot : ∀ l ∈ ls', l ∉ ls)
    (hroom : 64 ≤ s.esp) (hlt : s.esp < 0x100000000)
    : Entered s m saveList (t.pushAll ls') ∧ (t.pushAll ls').reg = t.reg := by
  have hsize : size ls + size ls' = 34 := by
    have hall : size saveList = 34 := rfl
    rw [← hls] at hall
    simp only [size, List.map_append, List.sum_append] at hall ⊢
    exact hall
  have hesp := h.esp
  obtain ⟨hpushed, hsaved, heq⟩ := @pushed_pushAll ls' t (by omega)
  have hall : size saveList = 34 := rfl
  refine ⟨?_, by rw [heq]⟩
  constructor
  . rw [hpushed.esp, hesp, hall]
    omega
  . rw [← hls]
    apply Saved.append
    . apply h.saved.congr (by omega)
      intro b hlo hhi
      exact hpushed.load b (by omega)
    . rw [← hesp]
      apply hsaved.values
      intro l hl
      exact h.kept l (hls ▸ List.mem_append_right ls hl) (hnot l hl)
  . intro l hl hl'
    exact absurd hl hl'
  . rw [heq]
    exact h.seg
  . rw [heq]
    exact h.cr3
  . rw [heq]
    exact h.disabled
  . intro b hb
    rw [hpushed.load b (by omega), h.load b (by omega)]

/--
The arguments of the function, and the segments of the kernel.
-/
theorem atCall (h : Entered s m saveList t) (code : BitVec 32) (r : Reg) (hroom : 64 ≤ s.esp)
    (hlt : s.esp < 0x100000000)
    : ∃ c,
        Run.run (step function) (t.pushWord code.toNat)
            [.lea 44 r, .push (.reg r), .movImm 0x10 r, .movSeg r .ds, .movSeg r .es, .movSeg r .fs]
            =
          some c
          ∧ AtCall s m code c
          ∧ ∀ r', r' ≠ r → c.reg r' = t.reg r' := by
  have hall : size saveList = 34 := rfl
  have hesp := h.esp
  have hcode := @pushed_pushWord t code.toNat (by omega)
  have hword : (t.pushWord code.toNat).mem.loadWord (s.esp - 50) = code.toNat := by
    rw [State.pushWord, State.below_of_le (by omega), show t.esp - 4 = s.esp - 50 by omega,
      Memory.loadWord_storeWord_self, Nat.mod_eq_of_lt code.isLt]
  have hreg : (t.pushWord code.toNat).reg = t.reg := rfl
  have hseg : (t.pushWord code.toNat).seg = s.seg := h.seg
  have hcr3 : (t.pushWord code.toNat).cr3 = s.cr3 := h.cr3
  have hdisabled : (t.pushWord code.toNat).eflags &&& 0x200 = 0 := h.disabled
  have hesp' : (t.pushWord code.toNat).esp = s.esp - 50 := by
    rw [hcode.esp]
    omega
  have hload := hcode.load
  generalize t.pushWord code.toNat = x at *
  have habove : x.above 44 = s.esp - 6 := by
    rw [State.above_of_lt (by omega)]
    omega
  have hbelow : (if 4 ≤ x.esp then x.esp - 4 else x.esp + 0x100000000 - 4) = s.esp - 54 := by
    rw [if_pos (by omega)]
    omega
  have hpointer : (BitVec.ofNat 32 (s.esp - 6)).toNat = s.esp - 6 := by
    rw [BitVec.toNat_ofNat]
    omega
  refine ⟨{ x with
    reg := fun r' => if r' = r then 0x10 else x.reg r'
    seg := fun r' => if r' = Seg.ds ∨ r' = Seg.es ∨ r' = Seg.fs then 0x10 else x.seg r'
    esp := s.esp - 54
    mem := x.mem.storeWord (s.esp - 54) (s.esp - 6) }, ?_, ?_, ?_⟩
  . simp only [Run.run_cons, step, Option.bind_some, Run.run_nil, habove, State.push_reg, State.setReg, State.setSeg,
      State.pushWord, State.below, hbelow, if_true, hpointer]
    congr 2
    . funext r'
      by_cases hr : r' = r <;> simp [hr]
    . funext r'
      cases r' <;> simp
  . constructor
    . rfl
    . apply h.saved.congr (by omega)
      intro b hlo hhi
      rw [Memory.load_storeWord_of_disjoint _ _ _ _ (by omega), hload b (by omega)]
    . simp only [hseg]
    . exact hcr3
    . exact hdisabled
    . rw [Memory.loadWord_storeWord_self, Nat.mod_eq_of_lt (by omega)]
    . dsimp only
      rw [Memory.loadWord_storeWord_of_disjoint _ _ _ _ (by omega), show s.esp - 54 + 4 = s.esp - 50 by omega, hword]
    . intro b hb
      rw [Memory.load_storeWord_of_disjoint _ _ _ _ (by omega), hload b (by omega), h.load b (by omega)]
  . intro r' hr'
    rw [← hreg]
    exact if_neg hr'

end Entered

/--
The end of `no_err_code` and `err_code`: the arguments are dropped and everything is restored.
-/
def epilogue : List Instr := [.pop (.reg .eax), .pop (.reg .eax)] ++ saveList.reverse.map .pop ++ [.iret]

/--
Both from the first register on that is saved by a `push`.
-/
def body (ls : List Loc) (push : Instr) (r called : Reg) : List Instr :=
  ls.map .push ++ [push, .lea 44 r, .push (.reg r), .movImm 0x10 r, .movSeg r .ds, .movSeg r .es, .movSeg r .fs]
    ++ [.call called] ++ epilogue

theorem plain_eq (a : BitVec 32)
    : plain a
        =
      .cli :: [.pushImm a, .xchg .eax 0]
        ++ body [.reg .ebx, .reg .ecx, .reg .edx, .reg .esi, .reg .edi, .reg .ebp, .seg .ds, .seg .es, .seg .fs]
          (.pushImm 0) .edx .eax := by
  rfl

theorem pushImm_errCode_eq (a : BitVec 32)
    : .pushImm a :: errCode
        =
      [.pushImm a, .xchg .eax 4, .xchg .ebx 0]
        ++ body [.reg .ecx, .reg .edx, .reg .esi, .reg .edi, .reg .ebp, .seg .ds, .seg .es, .seg .fs]
          (.push (.reg .eax)) .eax .ebx := by
  rfl

theorem run_epilogue (h : AtCall s m code c) (hframe : Frame m (s.esp - 12) s) (hret : Returns function a 8 46 c c')
    (hroom : 64 ≤ s.esp)
    (hlt : s.esp < 0x100000000)
    : Run.run (step function) c' epilogue
        =
      some { s with mem := c'.mem } := by
  have hesp := hret.esp
  rw [h.esp] at hesp
  have hkept : ∀ b, s.esp - 46 ≤ b → b < s.esp → c'.mem.load b = c.mem.load b := by
    intro b hlo hhi
    have hresp := h.esp
    exact hret.stack b (by omega) (by omega)
  have hsize : size saveList = 34 := rfl
  have hsaved : Saved c'.mem (s.esp - 12) s.get saveList :=
    h.saved.congr (by omega) (fun b hlo hhi => hkept b (by omega) (by omega))
  have hframe' : Frame c'.mem (s.esp - 12) s := by
    apply hframe.congr
    intro b hlo hhi
    rw [hkept b (by omega) (by omega), h.load b (by omega)]
  rw [epilogue, Run.run_append, Run.run_append, Run.run_cons, step, Option.bind_some, Run.run_cons, step,
    Option.bind_some, Run.run_nil, Option.bind_some, run_pop, Option.bind_some, Run.run_cons, step, Option.bind_some,
    Run.run_nil]
  have htwo : ((c'.pop (.reg .eax)).pop (.reg .eax)).esp = s.esp - 12 - size saveList := by
    simp only [State.pop, State.above, Loc.size, hesp, hsize]
    rw [if_pos (show s.esp - 54 + 4 < 0x100000000 by omega), if_pos (by omega)]
    omega
  rw [foldl_pop (t := (c'.pop (.reg .eax)).pop (.reg .eax)) hsaved rfl htwo (by omega) (by omega),
    Frame.iret (s := s) hframe' (by simp only; omega)]
  congr 1
  have hseg := hret.seg
  rw [h.segments] at hseg
  have hregs : ∀ r, Loc.reg r ∈ saveList := by
    intro r
    cases r <;> decide
  simp only [State.restore, State.get, State.setSeg, hregs, if_true, BitVec.ofNat_toNat, BitVec.setWidth_eq]
  have hcr3 : ((c'.pop (.reg .eax)).pop (.reg .eax)).cr3 = s.cr3 := hret.cr3.trans h.cr3
  have hsegs : ((c'.pop (.reg .eax)).pop (.reg .eax)).seg = c'.seg := rfl
  have hback : s.esp - 12 + 12 = s.esp := by omega
  rw [hcr3, hsegs, hseg, hback]
  congr 1
  funext r
  cases r <;> simp [saveList]

theorem deliver_spec (s : State) (err : Option (BitVec 32)) (hroom : 16 ≤ s.esp) (hlt : s.esp < 0x100000000)
    : let d := s.deliver err
      Pushed s d (if err.isSome then 16 else 12)
        ∧ Frame d.mem (s.esp - 12) s
        ∧ d.mem.loadWord (s.esp - 12 + 4) = (s.seg .cs).toNat
        ∧ (∀ code ∈ err, d.mem.loadWord (s.esp - 16) = code.toNat)
        ∧ d = { s with esp := d.esp, eflags := s.eflags &&& 0xfffffdff, mem := d.mem } := by
  have h₁ := @pushed_pushWord s s.eflags.toNat (by omega)
  have hesp₁ := h₁.esp
  have h₂ := @pushed_pushWord (s.pushWord s.eflags.toNat) (s.seg .cs).toNat (by omega)
  have hesp₂ := h₂.esp
  have h₃ := @pushed_pushWord ((s.pushWord s.eflags.toNat).pushWord (s.seg .cs).toNat) s.eip.toNat (by omega)
  have hesp₃ := h₃.esp
  have hpushed := (h₁.trans h₂ (by omega)).trans h₃ (by omega)
  have hframe : Frame (((s.pushWord s.eflags.toNat).pushWord (s.seg .cs).toNat).pushWord s.eip.toNat).mem (s.esp - 12) s
      ∧ (((s.pushWord s.eflags.toNat).pushWord (s.seg .cs).toNat).pushWord s.eip.toNat).mem.loadWord (s.esp - 12 + 4)
        = (s.seg .cs).toNat := by
    have heip := s.eip.isLt
    have hcs := (s.seg .cs).isLt
    have heflags := s.eflags.isLt
    rw [hesp₁] at hesp₂
    have hmem : (((s.pushWord s.eflags.toNat).pushWord (s.seg .cs).toNat).pushWord s.eip.toNat).mem
        = ((s.mem.storeWord (s.esp - 12 + 8) s.eflags.toNat).storeWord (s.esp - 12 + 4) (s.seg .cs).toNat).storeWord
            (s.esp - 12) s.eip.toNat := by
      rw [State.pushWord, State.below_of_le (by omega), hesp₂, State.pushWord,
        State.below_of_le (by omega), hesp₁, State.pushWord, State.below_of_le (by omega)]
      dsimp only
      rw [show s.esp - 4 - 4 - 4 = s.esp - 12 by omega, show s.esp - 4 - 4 = s.esp - 12 + 4 by omega,
        show s.esp - 4 = s.esp - 12 + 8 by omega]
    rw [hmem]
    have hsegment : (((s.mem.storeWord (s.esp - 12 + 8) s.eflags.toNat).storeWord (s.esp - 12 + 4)
        (s.seg .cs).toNat).storeWord (s.esp - 12) s.eip.toNat).loadWord (s.esp - 12 + 4) = (s.seg .cs).toNat := by
      rw [Memory.loadWord_storeWord_of_disjoint _ _ _ _ (by omega), Memory.loadWord_storeWord_self]
      omega
    refine ⟨?_, hsegment⟩
    constructor
    . rw [Memory.loadWord_storeWord_self, Nat.mod_eq_of_lt heip]
    . rw [hsegment]
      omega
    . rw [Memory.loadWord_storeWord_of_disjoint _ _ _ _ (by omega),
        Memory.loadWord_storeWord_of_disjoint _ _ _ _ (by omega), Memory.loadWord_storeWord_self,
        Nat.mod_eq_of_lt heflags]
  have hreg : (((s.pushWord s.eflags.toNat).pushWord (s.seg .cs).toNat).pushWord s.eip.toNat).reg = s.reg := by simp
  have hseg : (((s.pushWord s.eflags.toNat).pushWord (s.seg .cs).toNat).pushWord s.eip.toNat).seg = s.seg := by simp
  have heip : (((s.pushWord s.eflags.toNat).pushWord (s.seg .cs).toNat).pushWord s.eip.toNat).eip = s.eip := by simp
  have heflags : (((s.pushWord s.eflags.toNat).pushWord (s.seg .cs).toNat).pushWord s.eip.toNat).eflags = s.eflags := by
    simp
  have hcr3 : (((s.pushWord s.eflags.toNat).pushWord (s.seg .cs).toNat).pushWord s.eip.toNat).cr3 = s.cr3 := by simp
  simp only [State.deliver, State.pushFrame]
  generalize ((s.pushWord s.eflags.toNat).pushWord (s.seg .cs).toNat).pushWord s.eip.toNat = t at *
  have hesp := hpushed.esp
  cases err with
  | none =>
    refine ⟨⟨hpushed.esp, hpushed.load⟩, hframe.1, hframe.2, by simp, ?_⟩
    simp only [State.clearInterrupt, hreg, hseg, heip, heflags, hcr3]
  | some code =>
    have h₄ := @pushed_pushWord t code.toNat (by omega)
    have hpushed' := hpushed.trans h₄ (by omega)
    refine ⟨⟨hpushed'.esp, hpushed'.load⟩, ?_, ?_, ?_, ?_⟩
    . apply hframe.1.congr
      intro b hlo hhi
      exact h₄.load b (by omega)
    . rw [← hframe.2]
      apply Memory.loadWord_congr
      intro b hlo hhi
      exact h₄.load b (by omega)
    . intro code' hcode'
      obtain rfl : code = code' := Option.some.inj hcode'
      have hlt := code.isLt
      simp only [State.clearInterrupt, State.pushWord]
      rw [State.below_of_le (by omega), hesp, show s.esp - (4 + 4 + 4) - 4 = s.esp - 16 by omega,
        Memory.loadWord_storeWord_self, Nat.mod_eq_of_lt hlt]
    . simp only [State.clearInterrupt, State.pushWord, hreg, hseg, heip, heflags, hcr3]

/-
How the stubs begin: the place of the address of the function, and with an error code also its place, are taken for the
first registers.
-/
section Entries

/--
The processor has interrupted `s` and pushed `n` bytes.
-/
structure Interrupted (s : State) (m : Memory) (n : Nat) (d : State) : Prop where
  esp : d.esp = s.esp - n
  reg : d.reg = s.reg
  seg : d.seg = s.seg
  cr3 : d.cr3 = s.cr3
  disabled : d.eflags &&& 0x200 = 0
  mem : d.mem = m

theorem entered_plain (h : Interrupted s m 12 d) (hroom : 64 ≤ s.esp) (hlt : s.esp < 0x100000000) (a : BitVec 32)
    : ∃ t,
        Run.run (step function) d [.pushImm a, .xchg .eax 0] = some t
          ∧ Entered s m [.reg .eax] t
          ∧ t.reg .eax = a := by
  have hesp := h.esp
  have hbelow : d.below 4 = s.esp - 16 := by
    rw [State.below_of_le (by omega)]
    omega
  have habove : (if s.esp - 16 + 0 < 0x100000000 then s.esp - 16 + 0 else s.esp - 16 + 0 - 0x100000000)
      = s.esp - 16 := by
    rw [if_pos (by omega)]
    rfl
  have hloc : s.esp - 12 - Loc.size (.reg .eax) = s.esp - 16 := by
    simp only [Loc.size]
    omega
  refine ⟨{ d with
    reg := fun r => if r = Reg.eax then a else s.reg r
    esp := s.esp - 16
    mem := (m.storeWord (s.esp - 16) a.toNat).storeWord (s.esp - 16) (s.reg .eax).toNat }, ?_, ?_, rfl⟩
  . simp only [Run.run_cons, step, Option.bind_some, Run.run_nil, State.pushWord, State.above, State.setReg, hbelow,
      habove, h.mem, h.reg, Memory.loadWord_storeWord_self, Nat.mod_eq_of_lt a.isLt, BitVec.ofNat_toNat,
      BitVec.setWidth_eq]
  . constructor
    . simp only [size_cons, size_nil, Nat.add_zero, hloc]
    . refine ⟨?_, trivial⟩
      rw [hloc]
      exact (Memory.loadWord_storeWord_self _ _ _).trans (Nat.mod_eq_of_lt (s.reg .eax).isLt)
    . intro l hl hnot
      simp only [List.mem_singleton] at hnot
      cases l with
      | reg r =>
        have hr : r ≠ .eax := fun hr => hnot (by rw [hr])
        simp [State.get, hr]
      | seg r => simp [State.get, h.seg]
    . exact h.seg
    . exact h.cr3
    . exact h.disabled
    . intro b hb
      simp only [size_cons, size_nil, Nat.add_zero, hloc] at hb
      rw [Memory.load_storeWord_of_disjoint _ _ _ _ (by omega), Memory.load_storeWord_of_disjoint _ _ _ _ (by omega)]

theorem entered_errCode (h : Interrupted s m 16 d) (hcode : m.loadWord (s.esp - 16) = code.toNat) (hroom : 64 ≤ s.esp)
    (hlt : s.esp < 0x100000000) (a : BitVec 32)
    : ∃ t,
        Run.run (step function) d [.pushImm a, .xchg .eax 4, .xchg .ebx 0] = some t
          ∧ Entered s m [.reg .eax, .reg .ebx] t
          ∧ t.reg .eax = code
          ∧ t.reg .ebx = a := by
  have hesp := h.esp
  have hbelow : d.below 4 = s.esp - 20 := by
    rw [State.below_of_le (by omega)]
    omega
  have habove : s.esp - 16 < 0x100000000 ∧ s.esp - 20 < 0x100000000 := by omega
  have hslot : s.esp - 20 + 4 = s.esp - 16 := by omega
  refine ⟨{ d with
    reg := fun r => if r = Reg.ebx then a else if r = Reg.eax then code else s.reg r
    esp := s.esp - 20
    mem := ((m.storeWord (s.esp - 20) a.toNat).storeWord (s.esp - 16) (s.reg .eax).toNat).storeWord (s.esp - 20)
      (s.reg .ebx).toNat }, ?_, ?_, rfl, rfl⟩
  . have hfirst : (m.storeWord (s.esp - 20) a.toNat).loadWord (s.esp - 16) = code.toNat := by
      rw [Memory.loadWord_storeWord_of_disjoint _ _ _ _ (by omega), hcode]
    have hsecond : ((m.storeWord (s.esp - 20) a.toNat).storeWord (s.esp - 16) (s.reg .eax).toNat).loadWord (s.esp - 20)
        = a.toNat := by
      rw [Memory.loadWord_storeWord_of_disjoint _ _ _ _ (by omega), Memory.loadWord_storeWord_self,
        Nat.mod_eq_of_lt a.isLt]
    simp only [Run.run_cons, step, Option.bind_some, Run.run_nil, State.pushWord, State.above, State.setReg, hbelow,
      hslot, Nat.add_zero, habove, if_true, h.mem, h.reg, hfirst, hsecond, BitVec.ofNat_toNat, BitVec.setWidth_eq,
      reduceCtorEq, if_false]
  . have hfirst : s.esp - 12 - 4 = s.esp - 16 := by omega
    have hsecond : s.esp - 16 - 4 = s.esp - 20 := by omega
    constructor
    . simp only [size_cons, size_nil, Loc.size]
      omega
    . refine ⟨?_, ?_, trivial⟩
      . simp only [Loc.size, Loc.load, hfirst]
        rw [Memory.loadWord_storeWord_of_disjoint _ _ _ _ (by omega), Memory.loadWord_storeWord_self,
          Nat.mod_eq_of_lt (s.reg .eax).isLt]
        rfl
      . simp only [Loc.size, Loc.load, hfirst, hsecond]
        rw [Memory.loadWord_storeWord_self, Nat.mod_eq_of_lt (s.reg .ebx).isLt]
        rfl
    . intro l hl hnot
      simp only [List.mem_cons, List.not_mem_nil, or_false, not_or] at hnot
      cases l with
      | reg r =>
        have heax : r ≠ .eax := fun hr => hnot.1 (by rw [hr])
        have hebx : r ≠ .ebx := fun hr => hnot.2 (by rw [hr])
        simp [State.get, heax, hebx]
      | seg r => simp [State.get, h.seg]
    . exact h.seg
    . exact h.cr3
    . exact h.disabled
    . intro b hb
      simp only [size_cons, size_nil, Loc.size] at hb
      rw [Memory.load_storeWord_of_disjoint _ _ _ _ (by omega), Memory.load_storeWord_of_disjoint _ _ _ _ (by omega),
        Memory.load_storeWord_of_disjoint _ _ _ _ (by omega)]

end Entries

theorem interrupted_deliver (s : State) (err : Option (BitVec 32)) (hroom : 64 ≤ s.esp) (hlt : s.esp < 0x100000000)
    : Interrupted s (s.deliver err).mem (if err.isSome then 16 else 12) (s.deliver err).clearInterrupt := by
  obtain ⟨hpushed, -, -, -, heq⟩ := deliver_spec s err (by omega) hlt
  constructor
  . exact hpushed.esp
  . rw [heq]
    rfl
  . rw [heq]
    rfl
  . rw [heq]
    rfl
  . simp only [State.clearInterrupt]
    rw [BitVec.and_assoc]
    simp
  . rfl

/--
A stub calls the function at `a` in a state like `AtCall`. If the function returns, the code that was interrupted goes
on in the state `s`, with what the function did to the memory.
-/
def Resumes (function : BitVec 32 → State → Option State) (stub : List Instr) (a : BitVec 32)
    (err : Option (BitVec 32)) (s : State) : Prop :=
  ∃ c,
    AtCall s (s.deliver err).mem (err.getD 0) c
      ∧ (function a c = none → Run.run (step function) (s.deliver err) stub = none)
      ∧ ∀ c', Returns function a 8 46 c c' →
        Run.run (step function) (s.deliver err) stub = some { s with mem := c'.mem }

theorem run_body (function : BitVec 32 → State → Option State) (code : BitVec 32) {ls : List Loc} (ls' : List Loc)
    (push : Instr) (r called : Reg) (h : Entered s m ls t) (hls : ls ++ ls' = saveList)
    (hnot : ∀ l ∈ ls', l ∉ ls) (hroom : 64 ≤ s.esp) (hlt : s.esp < 0x100000000)
    (hpush : ∀ t', t'.reg = t.reg → step function t' push = some (t'.pushWord code.toNat)) (hne : called ≠ r)
    (ha : t.reg called = a)
    : ∃ c,
        AtCall s m code c
          ∧ Run.run (step function) t (body ls' push r called)
              =
            (function a c).bind (fun c' => Run.run (step function) c' epilogue) := by
  obtain ⟨hentered, hreg⟩ := h.pushAll hls hnot hroom hlt
  obtain ⟨c, hrun, hcall, hkept⟩ := @Entered.atCall function _ _ _ hentered code r hroom hlt
  refine ⟨c, hcall, ?_⟩
  have hcalled : c.reg called = a := by
    rw [hkept called hne, hreg, ha]
  rw [body, Run.run_append, Run.run_append, Run.run_append, run_push, Option.bind_some, Run.run_cons,
    hpush _ hreg, Option.bind_some, hrun, Option.bind_some, Run.run_cons, step, hcalled]
  cases function a c <;> rfl

theorem resumes_of_run {stub : List Instr} {err : Option (BitVec 32)} {c : State} (hroom : 64 ≤ s.esp)
    (hlt : s.esp < 0x100000000) (hcall : AtCall s (s.deliver err).mem (err.getD 0) c)
    (hrun : Run.run (step function) (s.deliver err) stub
      = (function a c).bind (fun c' => Run.run (step function) c' epilogue))
    : Resumes function stub a err s := by
  obtain ⟨-, hframe, -, -, -⟩ := deliver_spec s err (by omega) hlt
  refine ⟨c, hcall, ?_, ?_⟩
  . intro hnone
    rw [hrun, hnone, Option.bind_none]
  . intro c' hret
    rw [hrun, hret.call, Option.bind_some]
    exact run_epilogue hcall hframe hret hroom hlt

theorem resumes_plain (function : BitVec 32 → State → Option State) (a : BitVec 32) (hroom : 64 ≤ s.esp)
    (hlt : s.esp < 0x100000000)
    : Resumes function (plain a) a none s := by
  obtain ⟨t, hstart, hentered, ha⟩ := @entered_plain function _ _ _ (interrupted_deliver s none hroom hlt) hroom hlt a
  obtain ⟨c, hcall, hbody⟩ := run_body function 0
    [.reg .ebx, .reg .ecx, .reg .edx, .reg .esi, .reg .edi, .reg .ebp, .seg .ds, .seg .es, .seg .fs]
    (.pushImm 0) .edx .eax hentered rfl (by decide) hroom hlt (fun _ _ => rfl) (by decide) ha
  apply resumes_of_run hroom hlt hcall
  rw [plain_eq, List.cons_append, Run.run_cons, step, Option.bind_some, Run.run_append, hstart, Option.bind_some, hbody]

theorem resumes_withErrCode (function : BitVec 32 → State → Option State) (a code : BitVec 32) (hroom : 64 ≤ s.esp)
    (hlt : s.esp < 0x100000000)
    : Resumes function (withErrCode a) a (some code) s := by
  obtain ⟨-, -, -, hcode, -⟩ := deliver_spec s (some code) (by omega) hlt
  obtain ⟨t, hstart, hentered, heax, hebx⟩ :=
    @entered_errCode function _ _ _ _ (interrupted_deliver s (some code) hroom hlt) (hcode code rfl) hroom hlt a
  obtain ⟨c, hcall, hbody⟩ := run_body function code
    [.reg .ecx, .reg .edx, .reg .esi, .reg .edi, .reg .ebp, .seg .ds, .seg .es, .seg .fs]
    (.push (.reg .eax)) .eax .ebx hentered rfl (by decide) hroom hlt
    (fun t' ht' => by rw [step, State.push_reg, ht', heax]) (by decide) hebx
  apply resumes_of_run hroom hlt hcall
  rw [withErrCode, List.cons_append, List.singleton_append, Run.run_cons, step, Option.bind_some, pushImm_errCode_eq,
    Run.run_append, hstart, Option.bind_some, hbody]

/--
The exceptions with which the processor pushes an error code.
-/
def hasErrorCode (vector : Nat) : Bool :=
  vector ∈ [8, 10, 11, 12, 13, 14, 17, 21, 29, 30]

/--
The function that a stub calls.
-/
def handler (sym : Symbols) (vector : Nat) : BitVec 32 :=
  match vector with
  | 0 => sym.do_divide_error
  | 1 => sym.do_debug
  | 2 => sym.do_nmi
  | 3 => sym.do_int3
  | 4 => sym.do_overflow
  | 5 => sym.do_bounds
  | 6 => sym.do_opcode
  | 7 => sym.do_device_not_present
  | 8 => sym.do_double_fault
  | 9 => sym.do_i387_overrun
  | 10 => sym.do_illegal_tss
  | 11 => sym.do_illegal_segment
  | 12 => sym.do_stack_overflow
  | 13 => sym.do_general_protect
  | _ => sym.do_reserved

theorem gate_of_le (sym : Symbols) {vector : Nat} (h : 15 ≤ vector) : gate sym vector = reserved sym := by
  unfold gate
  split <;> first | omega | rfl

theorem handler_of_le (sym : Symbols) {vector : Nat} (h : 15 ≤ vector) : handler sym vector = sym.do_reserved := by
  unfold handler
  split <;> first | omega | rfl

/--
Every gate but that of the page fault, and those of the exceptions with an error code that `arch_init` takes for
`reserved`, fits what the processor pushes: if the function returns, the interrupted code goes on as it was.
-/
theorem gate_resumes (sym : Symbols) (function : BitVec 32 → State → Option State) (s : State) {vector : Nat}
    (code : BitVec 32) (hroom : 64 ≤ s.esp) (hlt : s.esp < 0x100000000) (hvector : vector ≠ 14)
    (hreserved : hasErrorCode vector → vector < 15)
    : Resumes function (gate sym vector) (handler sym vector) (if hasErrorCode vector then some code else none) s := by
  by_cases hge : 15 ≤ vector
  . have herr : hasErrorCode vector = false := by
      by_contra hcode
      have := hreserved (by simpa using hcode)
      omega
    rw [gate_of_le sym hge, handler_of_le sym hge, herr]
    exact resumes_plain function _ hroom hlt
  . match vector, hge, hvector with
    | 0, _, _ | 1, _, _ | 2, _, _ | 3, _, _ | 4, _, _ | 5, _, _ | 6, _, _ | 7, _, _ | 9, _, _ =>
      exact resumes_plain function _ hroom hlt
    | 8, _, _ | 10, _, _ | 11, _, _ | 12, _, _ | 13, _, _ =>
      exact resumes_withErrCode function _ code hroom hlt
    | 14, _, hne => exact absurd rfl hne
    | n + 15, hge, _ => exact absurd (Nat.le_add_left 15 n) hge

def symbols : Symbols where
  do_divide_error := 0x101000
  do_debug := 0x101100
  do_nmi := 0x101200
  do_int3 := 0x101300
  do_overflow := 0x101400
  do_bounds := 0x101500
  do_opcode := 0x101600
  do_device_not_present := 0x101700
  do_double_fault := 0x101800
  do_i387_overrun := 0x101900
  do_illegal_tss := 0x101A00
  do_illegal_segment := 0x101B00
  do_stack_overflow := 0x101C00
  do_general_protect := 0x101D00
  do_page_fault := 0x101E00
  do_reserved := 0x101F00
  do_ata_int := 0x102000
  do_pit_int := 0x102100
  esp_swap := 0x120000
  worker_stack_top := 0x120004

/--
Some code of the kernel.
-/
def interrupted : State where
  reg := fun _ => 7
  seg := fun r => if r = .cs then 8 else 0x10
  esp := 0x1000
  eip := 0x100123
  eflags := 0x202
  cr3 := 0x10A000
  mem := ⟨fun _ => 0, []⟩

def returnZero (_ : BitVec 32) (c : State) : Option State := some (c.setReg .eax 0)

theorem returns_returnZero (a : BitVec 32) (args n : Nat) (c : State)
    : Returns returnZero a args n c (c.setReg .eax 0) := by
  refine ⟨rfl, rfl, fun r heax _ _ => if_neg heax, rfl, rfl, fun b _ _ => rfl⟩

/--
What is left of the flags after the stub of the page fault: it writes the upper half of the address over the lower one.
-/
def faultFlags (s : State) : BitVec 32 :=
  BitVec.ofNat 32 (s.eip.toNat / 0x10000 + 0x10000 * (s.eflags.toNat / 0x10000))

/--
The address is stored over the upper half of the code segment's word, which is not used, and the lower half of the flags.
-/
theorem Frame.clobber (h : Frame m (s.esp - 12) s) (hroom : 20 ≤ s.esp)
    : Frame ((m.storeWord (s.esp - 20) s.eip.toNat).storeWord (s.esp - 6) s.eip.toNat) (s.esp - 12)
        { s with eflags := faultFlags s } := by
  have heip := s.eip.isLt
  have heflags := s.eflags.isLt
  have hhalves : (m.storeWord (s.esp - 20) s.eip.toNat).storeWord (s.esp - 6) s.eip.toNat
      = ((m.storeWord (s.esp - 20) s.eip.toNat).storeHalf (s.esp - 6) (s.eip.toNat % 0x10000)).storeHalf (s.esp - 6 + 2)
          (s.eip.toNat / 0x10000) := by
    rw [Memory.storeHalf_storeHalf _ _ _ _ (by omega), Nat.mod_add_div]
  have hold (a : Nat) (ha : s.esp - 16 ≤ a)
      : (m.storeWord (s.esp - 20) s.eip.toNat).loadHalf a = m.loadHalf a := by
    apply Memory.loadHalf_congr
    intro b hlo hhi
    exact Memory.load_storeWord_of_disjoint _ _ _ _ (by omega)
  constructor
  . rw [Memory.loadWord_storeWord_of_disjoint _ _ _ _ (by omega), Memory.loadWord_storeWord_of_disjoint _ _ _ _ (by omega)]
    exact h.eip
  . have hcs := h.cs
    have hlt := Memory.loadHalf_lt m (s.esp - 12 + 4)
    rw [hhalves, Memory.loadWord_eq_halves, Memory.loadHalf_storeHalf_of_disjoint _ _ _ _ (by omega),
      Memory.loadHalf_storeHalf_of_disjoint _ _ _ _ (by omega), hold _ (by omega)]
    rw [Memory.loadWord_eq_halves] at hcs
    dsimp only
    omega
  . have hflags := h.eflags
    have hlt := Memory.loadHalf_lt m (s.esp - 12 + 8)
    rw [hhalves, Memory.loadWord_eq_halves, show s.esp - 6 + 2 = s.esp - 12 + 8 by omega, Memory.loadHalf_storeHalf_self,
      Memory.loadHalf_storeHalf_of_disjoint _ _ _ _ (by omega), Memory.loadHalf_storeHalf_of_disjoint _ _ _ _ (by omega),
      hold _ (by omega)]
    rw [Memory.loadWord_eq_halves] at hflags
    simp only [faultFlags, BitVec.toNat_ofNat]
    omega

/--
The stub copies the address of the faulting code to the place that `err_code` passes to `do_page_fault`.
-/
theorem run_pageFault_start (s : State) (code : BitVec 32) (hroom : 64 ≤ s.esp) (hlt : s.esp < 0x100000000)
    : ∃ t m,
        Run.run (step function) (s.deliver (some code)) [.cli, .nop, .pushMem 4, .popMem 0xa] = some t
          ∧ Interrupted { s with eflags := faultFlags s } m 16 t
          ∧ Frame m (s.esp - 12) { s with eflags := faultFlags s }
          ∧ m.loadWord (s.esp - 16) = code.toNat
          ∧ m.loadWord (s.esp - 6) = s.eip.toNat
          ∧ ∀ b, b < s.esp - 20 ∨ s.esp ≤ b → m.load b = s.mem.load b := by
  obtain ⟨hpushed, hframe, -, hcode, -⟩ := deliver_spec s (some code) (by omega) hlt
  have hcode := hcode code rfl
  have hinterrupted := interrupted_deliver s (some code) hroom hlt
  have hload := hpushed.load
  simp only [Option.isSome_some, if_true] at hinterrupted hload
  have hesp := hinterrupted.esp
  have hmem := hinterrupted.mem
  have heip := s.eip.isLt
  generalize (s.deliver (some code)).mem = m at *
  have hbelow : ((s.deliver (some code)).clearInterrupt).below 4 = s.esp - 20 := by
    rw [State.below_of_le (by omega)]
    omega
  have habove : ((s.deliver (some code)).clearInterrupt).above 4 = s.esp - 12 := by
    rw [State.above_of_lt (by omega)]
    omega
  refine ⟨{ (s.deliver (some code)).clearInterrupt with
    esp := s.esp - 16
    mem := (m.storeWord (s.esp - 20) s.eip.toNat).storeWord (s.esp - 6) s.eip.toNat },
    (m.storeWord (s.esp - 20) s.eip.toNat).storeWord (s.esp - 6) s.eip.toNat, ?_, ?_, ?_, ?_, ?_, ?_⟩
  . have hlow : (if s.esp - 20 + 4 < 0x100000000 then s.esp - 20 + 4 else s.esp - 20 + 4 - 0x100000000) = s.esp - 16 := by
      rw [if_pos (by omega)]
      omega
    have hhigh : (if s.esp - 16 + 0xa < 0x100000000 then s.esp - 16 + 0xa else s.esp - 16 + 0xa - 0x100000000)
        = s.esp - 6 := by
      rw [if_pos (by omega)]
      omega
    simp only [Run.run_cons, step, Option.bind_some, Run.run_nil, State.pushWord, hbelow, habove, hmem, hframe.eip,
      Memory.loadWord_storeWord_self, Nat.mod_eq_of_lt heip]
    simp only [State.above, hlow, hhigh]
  . exact ⟨rfl, hinterrupted.reg, hinterrupted.seg, hinterrupted.cr3, hinterrupted.disabled, rfl⟩
  . exact hframe.clobber (by omega)
  . rw [Memory.loadWord_storeWord_of_disjoint _ _ _ _ (by omega),
      Memory.loadWord_storeWord_of_disjoint _ _ _ _ (by omega), hcode]
  . rw [Memory.loadWord_storeWord_self, Nat.mod_eq_of_lt heip]
  . intro b hb
    rw [Memory.load_storeWord_of_disjoint _ _ _ _ (by omega), Memory.load_storeWord_of_disjoint _ _ _ _ (by omega),
      hload b (by omega)]

theorem pageFault_eq (sym : Symbols)
    : pageFault sym = [.cli, .nop, .pushMem 4, .popMem 0xa] ++ .pushImm sym.do_page_fault :: errCode := by
  rfl

/--
`do_page_fault` finds the address of the faulting code where it looks for it. If it returned, everything would be as it
was but the lower half of the flags.
-/
theorem pageFault_spec (sym : Symbols) (function : BitVec 32 → State → Option State) (s : State) (code : BitVec 32)
    (hroom : 64 ≤ s.esp) (hlt : s.esp < 0x100000000)
    : ∃ c,
        c.mem.loadWord (c.mem.loadWord c.esp) = s.eip.toNat
          ∧ (∀ b, b < s.esp - 54 ∨ s.esp ≤ b → c.mem.load b = s.mem.load b)
          ∧ (function sym.do_page_fault c = none
            → Run.run (step function) (s.deliver (some code)) (pageFault sym) = none)
          ∧ ∀ c', Returns function sym.do_page_fault 8 46 c c'
            → Run.run (step function) (s.deliver (some code)) (pageFault sym)
                =
              some { s with eflags := faultFlags s, mem := c'.mem } := by
  obtain ⟨d, m, hrun, hinterrupted, hframe, hcode, heip, hmem⟩ := @run_pageFault_start function s code hroom hlt
  obtain ⟨t, hstart, hentered, heax, hebx⟩ :=
    @entered_errCode function _ _ _ _ hinterrupted hcode hroom hlt sym.do_page_fault
  obtain ⟨c, hcall, hbody⟩ := run_body function code
    [.reg .ecx, .reg .edx, .reg .esi, .reg .edi, .reg .ebp, .seg .ds, .seg .es, .seg .fs]
    (.push (.reg .eax)) .eax .ebx hentered rfl (by decide) hroom hlt
    (fun t' ht' => by rw [step, State.push_reg, ht', heax]) (by decide) hebx
  have hall : Run.run (step function) (s.deliver (some code)) (pageFault sym)
      = (function sym.do_page_fault c).bind (fun c' => Run.run (step function) c' epilogue) := by
    rw [pageFault_eq, Run.run_append, hrun, Option.bind_some, pushImm_errCode_eq, Run.run_append, hstart,
      Option.bind_some, hbody]
  have hload : ∀ b, b < s.esp - 54 ∨ s.esp - 12 ≤ b → c.mem.load b = m.load b := hcall.load
  have hpointer : c.mem.loadWord c.esp = s.esp - 6 := hcall.pointer
  refine ⟨c, ?_, ?_, ?_, ?_⟩
  . rw [hpointer, ← heip]
    apply Memory.loadWord_congr
    intro b hlo hhi
    exact hload b (by omega)
  . intro b hb
    rw [hload b (by omega), hmem b (by omega)]
  . intro hnone
    rw [hall, hnone, Option.bind_none]
  . intro c' hret
    rw [hall, hret.call, Option.bind_some]
    exact run_epilogue hcall hframe hret hroom hlt

theorem pageFault_spec_read
    : ∃ mem,
        Run.run (step returnZero) (interrupted.deliver (some 0)) (pageFault symbols)
          =
        some { interrupted with eflags := 0x10, mem := mem } := by
  obtain ⟨c, -, -, -, hreturn⟩ := pageFault_spec symbols returnZero interrupted 0 (by decide) (by decide)
  have hflags : faultFlags interrupted = 0x10 := by decide
  rw [hflags] at hreturn
  exact ⟨_, hreturn _ (returns_returnZero _ _ _ c)⟩

end Isr
end Osproj
