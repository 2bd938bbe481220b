import Osproj.Kernel.Lemmas.Hex

/-!
This module contains the pieces of a format, and the exact conditions under which `printk` stays inside its format and
prints a string as it is.
-/

namespace Osproj
namespace Printk

/--
A `text` is what `%%` and unknown conversions print, a `lone` is a `%` at the end.
-/
inductive Piece
  | literal (c : BitVec 8)
  | text (c : BitVec 8)
  | number (print : BitVec 32 → Option (List (BitVec 8)))
  | string
  | lone

def pieces : List (BitVec 8) → List Piece
  | [] => []
  | c :: fmt =>
    if c = 0x25 then
      match fmt with
      | [] => [.lone]
      | c :: fmt =>
        match conversion c with
        | .number print => .number print :: pieces fmt
        | .string => .string :: pieces fmt
        | .percent => .text 0x25 :: pieces fmt
        | .unknown => .text c :: pieces fmt
        | .hex =>
          match fmt with
          | [] => [.number fun v => some (x v 0)]
          | w :: rest =>
            if IS_NUM w then
              .number (fun v => some (x v (w - 48).toNat)) :: pieces rest
            else
              .number (fun v => some (x v 0)) :: pieces (w :: rest)
    else
      .literal c :: pieces fmt
termination_by structural fmt => fmt

section Pieces

variable {fmt : List (BitVec 8)} {c w : BitVec 8}

theorem pieces_number {print : BitVec 32 → Option (List (BitVec 8))} (hc : conversion c = .number print)
    : pieces (0x25 :: c :: fmt) = .number print :: pieces fmt := by
  rw [pieces.eq_def]
  simp only [hc, if_true]

theorem pieces_string (hc : conversion c = .string) : pieces (0x25 :: c :: fmt) = .string :: pieces fmt := by
  rw [pieces.eq_def]
  simp only [hc, if_true]

theorem pieces_percent (hc : conversion c = .percent)
    : pieces (0x25 :: c :: fmt) = .text 0x25 :: pieces fmt := by
  rw [pieces.eq_def]
  simp only [hc, if_true]

theorem pieces_unknown (hc : conversion c = .unknown) : pieces (0x25 :: c :: fmt) = .text c :: pieces fmt := by
  rw [pieces.eq_def]
  simp only [hc, if_true]

theorem pieces_hex_end (hc : conversion c = .hex)
    : pieces [0x25, c] = [.number fun v => some (x v 0)] := by
  rw [pieces.eq_def]
  simp only [hc, if_true]

theorem pieces_hex_width (hc : conversion c = .hex) (hw : IS_NUM w)
    : pieces (0x25 :: c :: w :: fmt) = .number (fun v => some (x v (w - 48).toNat)) :: pieces fmt := by
  rw [pieces.eq_def]
  simp only [hc, if_true, if_pos hw]

theorem pieces_hex (hc : conversion c = .hex) (hw : ¬ IS_NUM w)
    : pieces (0x25 :: c :: w :: fmt) = .number (fun v => some (x v 0)) :: pieces (w :: fmt) := by
  rw [pieces.eq_def]
  simp only [hc, if_true, if_neg hw]

theorem pieces_literal (hpercent : c ≠ 0x25) : pieces (c :: fmt) = .literal c :: pieces fmt := by
  rw [pieces.eq_def]
  exact if_neg hpercent

end Pieces

def segment (out : List (BitVec 8)) (rest : Option (List (List (BitVec 8)) × List Arg))
    : Option (List (List (BitVec 8)) × List Arg) :=
  rest.map fun r => (out :: r.1, r.2)

/--
What each piece prints.
-/
def segments : List Piece → List Arg → Option (List (List (BitVec 8)) × List Arg)
  | [], args => some ([], args)
  | .literal c :: ps, args => segment [c] (segments ps args)
  | .text c :: ps, args => segment [c] (segments ps args)
  | .number print :: ps, .int v :: args => (print v).bind fun out => segment out (segments ps args)
  | .string :: ps, .str s junk :: args => (printk s.bytes junk).bind fun out => segment out.1 (segments ps args)
  | _ :: _, _ => none

def joined (segs : Option (List (List (BitVec 8)) × List Arg)) : Printed := segs.map fun r => (r.1.flatten, r.2)

theorem joined_segment (out : List (BitVec 8)) (segs : Option (List (List (BitVec 8)) × List Arg))
    : joined (segment out segs) = putchars out (joined segs) := by
  cases segs <;> rfl

theorem joined_bind {α : Type} (o : Option α) (segs : α → Option (List (List (BitVec 8)) × List Arg))
    : joined (o.bind segs) = o.bind fun out => joined (segs out) := by
  cases o <;> rfl

theorem printk_no_int {fmt : List (BitVec 8)} {args : List Arg} {c : BitVec 8}
    (hc : (∃ print, conversion c = .number print) ∨ conversion c = .hex) (hargs : ∀ v as, args ≠ .int v :: as)
    : printk (0x25 :: c :: fmt) args = none := by
  rw [printk.eq_def]
  dsimp only
  rw [if_neg (by decide), if_pos rfl]
  rcases hc with ⟨print, hc⟩ | hc
  . rw [hc]
    dsimp only
    split
    . next v as => exact absurd rfl (hargs v as)
    . rfl
  . rw [hc]
    dsimp only
    split
    . next v as => exact absurd rfl (hargs v as)
    . rfl

theorem printk_no_str {fmt : List (BitVec 8)} {args : List Arg} {c : BitVec 8} (hc : conversion c = .string)
    (hargs : ∀ s junk as, args ≠ .str s junk :: as)
    : printk (0x25 :: c :: fmt) args = none := by
  rw [printk.eq_def]
  dsimp only
  rw [if_neg (by decide), if_pos rfl, hc]
  dsimp only
  split
  . next s junk as => exact absurd rfl (hargs s junk as)
  . rfl

theorem printk_eq (fmt : List (BitVec 8)) (args : List Arg) (hnul : 0 ∉ fmt)
    : printk (fmt ++ [0]) args = joined (segments (pieces fmt) args) := by
  have hnumber {c : BitVec 8} {print : BitVec 32 → Option (List (BitVec 8))} {rest : List (BitVec 8)}
      {ps : List Piece} {args : List Arg}
      (hstep : ∀ v as, printk (0x25 :: c :: rest) (.int v :: as)
        = (print v).bind fun out => putchars out (joined (segments ps as)))
      (hc : (∃ print, conversion c = .number print) ∨ conversion c = .hex)
      : printk (0x25 :: c :: rest) args = joined (segments (.number print :: ps) args) := by
    rcases args with - | ⟨v | ⟨s, junk⟩, args⟩
    . exact printk_no_int hc (by simp)
    . rw [hstep, segments, joined_bind]
      simp only [joined_segment]
    . exact printk_no_int hc (by simp)
  induction fmt using pieces.induct generalizing args with
  | case1 => exact printk_nul
  | case2 =>
    rw [List.singleton_append, printk_unknown rfl, printk_nil]
    rfl
  | case3 c fmt print hc ih =>
    simp only [List.mem_cons, not_or] at hnul
    rw [pieces_number hc]
    refine @hnumber c print (fmt ++ [0]) (pieces fmt) args (fun v as => ?_) (Or.inl ⟨print, hc⟩)
    rw [printk_number hc, ih as hnul.2.2]
  | case4 c fmt hc ih =>
    simp only [List.mem_cons, not_or] at hnul
    rw [pieces_string hc]
    rcases args with - | ⟨v | ⟨s, junk⟩, args⟩
    . exact printk_no_str hc (by simp)
    . exact printk_no_str hc (by simp)
    . rw [List.cons_append, List.cons_append, printk_string hc, ih args hnul.2.2, segments, joined_bind]
      simp only [joined_segment]
  | case5 c fmt hc ih =>
    simp only [List.mem_cons, not_or] at hnul
    rw [pieces_percent hc, List.cons_append, List.cons_append, printk_percent hc, ih args hnul.2.2, segments,
      joined_segment]
  | case6 c fmt hc ih =>
    simp only [List.mem_cons, not_or] at hnul
    rw [pieces_unknown hc, List.cons_append, List.cons_append, printk_unknown hc, ih args hnul.2.2, segments,
      joined_segment]
  | case7 c hc =>
    rw [pieces_hex_end hc]
    refine @hnumber c _ [0] [] args (fun v as => ?_) (Or.inr hc)
    rw [printk_hex hc (by decide), printk_nul]
    rfl
  | case8 c hc w fmt hw ih =>
    simp only [List.mem_cons, not_or] at hnul
    rw [pieces_hex_width hc hw]
    refine @hnumber c _ (w :: (fmt ++ [0])) (pieces fmt) args (fun v as => ?_) (Or.inr hc)
    rw [printk_hex_width hc hw, ih as hnul.2.2.2]
    rfl
  | case9 c hc w fmt hw ih =>
    simp only [List.mem_cons, not_or] at hnul
    rw [pieces_hex hc hw]
    refine @hnumber c _ (w :: (fmt ++ [0])) (pieces (w :: fmt)) args (fun v as => ?_) (Or.inr hc)
    rw [printk_hex hc hw, ← List.cons_append, ih as (by simpa using hnul.2.2)]
    rfl
  | case10 c fmt hc ih =>
    simp only [List.mem_cons, not_or] at hnul
    rw [pieces_literal hc, List.cons_append, printk_literal (Ne.symm hnul.1) hc, ih args hnul.2, segments,
      joined_segment]

/--
Every conversion finds an argument of its kind, and so do those of the strings that are printed.
-/
def Supplied : List Piece → List Arg → Prop
  | [], _ => True
  | .literal _ :: ps, args => Supplied ps args
  | .text _ :: ps, args => Supplied ps args
  | .lone :: ps, args => Supplied ps args
  | .number _ :: ps, .int _ :: args => Supplied ps args
  | .string :: ps, .str s junk :: args => Supplied (pieces s.chars) junk ∧ Supplied ps args
  | _ :: _, _ => False
termination_by ps args => (sizeOf args, ps.length)

/--
The format does not end in the middle of a conversion, and neither do the strings that are printed.
-/
def Complete : List Piece → List Arg → Prop
  | [], _ => True
  | .literal _ :: ps, args => Complete ps args
  | .text _ :: ps, args => Complete ps args
  | .lone :: _, _ => False
  | .number _ :: ps, .int _ :: args => Complete ps args
  | .string :: ps, .str s junk :: args => Complete (pieces s.chars) junk ∧ Complete ps args
  | _ :: ps, args => Complete ps args
termination_by ps args => (sizeOf args, ps.length)

theorem ne_none_of_conversion {c : BitVec 8} {print : BitVec 32 → Option (List (BitVec 8))}
    (hc : conversion c = .number print) (v : BitVec 32)
    : print v ≠ none := by
  unfold conversion at hc
  split at hc
  all_goals cases hc
  . exact d_ne_none v
  . exact d_ne_none v
  . exact u_ne_none v
  all_goals simp

theorem ne_none_of_mem_pieces {fmt : List (BitVec 8)} {print : BitVec 32 → Option (List (BitVec 8))}
    (h : .number print ∈ pieces fmt) (v : BitVec 32)
    : print v ≠ none := by
  induction fmt using pieces.induct with
  | case1 => simp [pieces] at h
  | case2 => simp [pieces] at h
  | case3 c fmt print' hc ih =>
    rw [pieces_number hc, List.mem_cons, Piece.number.injEq] at h
    rcases h with rfl | h
    . exact ne_none_of_conversion hc v
    . exact ih h
  | case4 c fmt hc ih =>
    rw [pieces_string hc, List.mem_cons] at h
    exact ih (h.resolve_left (by simp))
  | case5 c fmt hc ih =>
    rw [pieces_percent hc, List.mem_cons] at h
    exact ih (h.resolve_left (by simp))
  | case6 c fmt hc ih =>
    rw [pieces_unknown hc, List.mem_cons] at h
    exact ih (h.resolve_left (by simp))
  | case7 c hc =>
    rw [pieces_hex_end hc, List.mem_singleton, Piece.number.injEq] at h
    rw [h]
    simp
  | case8 c hc w fmt hw ih =>
    rw [pieces_hex_width hc hw, List.mem_cons, Piece.number.injEq] at h
    rcases h with rfl | h
    . simp
    . exact ih h
  | case9 c hc w fmt hw ih =>
    rw [pieces_hex hc hw, List.mem_cons, Piece.number.injEq] at h
    rcases h with rfl | h
    . simp
    . exact ih h
  | case10 c fmt hc ih =>
    rw [pieces_literal hc, List.mem_cons] at h
    exact ih (h.resolve_left (by simp))

section Segments

variable {ps : List Piece} {args rest : List Arg} {segs : List (List (BitVec 8))}

theorem segment_eq_some {out : List (BitVec 8)} {o : Option (List (List (BitVec 8)) × List Arg)}
    (h : segment out o = some (segs, rest))
    : ∃ tail, o = some (tail, rest) ∧ segs = out :: tail := by
  obtain ⟨⟨tail, rest'⟩, ho, heq⟩ := Option.map_eq_some_iff.mp h
  simp only [Prod.mk.injEq] at heq
  obtain ⟨rfl, rfl⟩ := heq
  exact ⟨tail, ho, rfl⟩

theorem segments_literals (h : segments ps args = some (segs, rest))
    : List.Forall₂ (fun p seg => ∀ c, p = .literal c → seg = [c]) ps segs := by
  induction ps generalizing args segs with
  | nil =>
    rw [segments, Option.some.injEq, Prod.mk.injEq] at h
    rw [← h.1]
    exact List.Forall₂.nil
  | cons p ps ih =>
    cases p with
    | literal c =>
      obtain ⟨tail, hs, rfl⟩ := segment_eq_some h
      refine List.Forall₂.cons ?_ (ih hs)
      intro b hb
      rw [Piece.literal.inj hb]
    | text c =>
      obtain ⟨tail, hs, rfl⟩ := segment_eq_some h
      exact List.Forall₂.cons (by simp) (ih hs)
    | number print =>
      rcases args with - | ⟨v | ⟨s, junk⟩, args⟩
      . simp [segments] at h
      . obtain ⟨out, -, h⟩ := Option.bind_eq_some_iff.mp h
        obtain ⟨tail, hs, rfl⟩ := segment_eq_some h
        exact List.Forall₂.cons (by simp) (ih hs)
      . simp [segments] at h
    | string =>
      rcases args with - | ⟨v | ⟨s, junk⟩, args⟩
      . simp [segments] at h
      . simp [segments] at h
      . obtain ⟨out, -, h⟩ := Option.bind_eq_some_iff.mp h
        obtain ⟨tail, hs, rfl⟩ := segment_eq_some h
        exact List.Forall₂.cons (by simp) (ih hs)
    | lone => simp [segments] at h

theorem segment_ne_none {out : List (BitVec 8)} {o : Option (List (List (BitVec 8)) × List Arg)}
    : segment out o ≠ none ↔ o ≠ none := by
  rw [segment, ne_eq, Option.map_eq_none_iff]

theorem joined_ne_none {segs : Option (List (List (BitVec 8)) × List Arg)} : joined segs ≠ none ↔ segs ≠ none := by
  rw [joined, ne_eq, Option.map_eq_none_iff]

theorem segments_ne_none_iff (hargs : Supplied ps args) (hnumber : ∀ print, .number print ∈ ps → ∀ v, print v ≠ none)
    : segments ps args ≠ none ↔ Complete ps args := by
  induction ps, args using Supplied.induct with
  | case1 args => simp [segments, Complete]
  | case2 args c ps ih =>
    rw [Supplied] at hargs
    rw [segments, segment_ne_none, ih hargs (fun print hp => hnumber print (List.mem_cons_of_mem _ hp)), Complete]
  | case3 args c ps ih =>
    rw [Supplied] at hargs
    rw [segments, segment_ne_none, ih hargs (fun print hp => hnumber print (List.mem_cons_of_mem _ hp)), Complete]
  | case4 args ps ih => simp [segments, Complete]
  | case5 print ps v args ih =>
    rw [Supplied] at hargs
    obtain ⟨out, hout⟩ := Option.ne_none_iff_exists'.mp (hnumber print (List.mem_cons_self ..) v)
    rw [segments, hout, Option.bind_some, segment_ne_none,
      ih hargs (fun print hp => hnumber print (List.mem_cons_of_mem _ hp)), Complete]
  | case6 ps s junk args ihs ih =>
    rw [Supplied] at hargs
    have hs := ihs hargs.1 (fun print hp => ne_none_of_mem_pieces hp)
    have hps := ih hargs.2 (fun print hp => hnumber print (List.mem_cons_of_mem _ hp))
    have hprint : printk s.bytes junk ≠ none ↔ Complete (pieces s.chars) junk := by
      rw [CString.bytes, printk_eq s.chars junk s.noNul, joined_ne_none, hs]
    rw [Complete, ← hprint, ← hps]
    cases hout : printk s.bytes junk with
    | none => simp [segments, hout]
    | some out =>
      rw [segments, hout, Option.bind_some, segment_ne_none]
      simp
  | case7 args p ps hliteral htext hlone hnumber hstring =>
    rw [Supplied] at hargs
    . exact hargs.elim
    all_goals assumption

end Segments

/--
What must hold of a format: it is read up to its NUL and no further, and every byte outside of its conversions is
printed once and in its place. A read behind the NUL would be a `none`.
-/
def StaysInside (fmt : CString) (args : List Arg) : Prop :=
  ∃ segs rest, printk fmt.bytes args = some (segs.flatten, rest)
    ∧ List.Forall₂ (fun p seg => ∀ c, p = .literal c → seg = [c]) (pieces fmt.chars) segs

/--
The condition under which it does.
-/
def FormatOk (fmt : CString) (args : List Arg) : Prop := Complete (pieces fmt.chars) args

theorem printk_ne_none_iff (fmt : CString) (args : List Arg) (hargs : Supplied (pieces fmt.chars) args)
    : printk fmt.bytes args ≠ none ↔ FormatOk fmt args := by
  rw [CString.bytes, printk_eq fmt.chars args fmt.noNul, joined_ne_none,
    segments_ne_none_iff hargs (fun _ h => ne_none_of_mem_pieces h), FormatOk]

theorem staysInside_iff (fmt : CString) (args : List Arg) (hargs : Supplied (pieces fmt.chars) args)
    : StaysInside fmt args ↔ FormatOk fmt args := by
  rw [← printk_ne_none_iff fmt args hargs]
  constructor
  . rintro ⟨segs, rest, hprint, -⟩
    simp [hprint]
  . intro hne
    obtain ⟨r, hr⟩ := Option.ne_none_iff_exists'.mp hne
    have heq := printk_eq fmt.chars args fmt.noNul
    rw [← CString.bytes, hr] at heq
    obtain ⟨⟨segs, rest⟩, hsegs, rfl⟩ := Option.map_eq_some_iff.mp heq.symm
    exact ⟨segs, rest, hr, segments_literals hsegs⟩

section Ints

def Piece.isNumber : Piece → Bool
  | .number _ => true
  | _ => false

/--
What takes an integer or nothing.
-/
def Piece.takesInt : Piece → Bool
  | .literal _ => true
  | .text _ => true
  | .number _ => true
  | _ => false

variable {ps : List Piece} {vs : List (BitVec 32)}

theorem supplied_ints (hint : ps.all Piece.takesInt) (hcount : ps.countP Piece.isNumber ≤ vs.length)
    : Supplied ps (vs.map .int) ∧ Complete ps (vs.map .int) := by
  induction ps generalizing vs with
  | nil => simp [Supplied, Complete]
  | cons p ps ih =>
    rw [List.all_cons, Bool.and_eq_true] at hint
    rw [List.countP_cons] at hcount
    cases p with
    | literal c =>
      rw [Supplied, Complete]
      exact ih hint.2 hcount
    | text c =>
      rw [Supplied, Complete]
      exact ih hint.2 hcount
    | number print =>
      have hcount : ps.countP Piece.isNumber + 1 ≤ vs.length := hcount
      cases vs with
      | nil => exact absurd hcount (by simp)
      | cons v vs =>
        rw [List.length_cons] at hcount
        rw [List.map_cons, Supplied, Complete]
        exact ih hint.2 (by omega)
    | string => exact absurd hint.1 (by decide)
    | lone => exact absurd hint.1 (by decide)

/--
A format without strings prints any integers, when there are enough of them.
-/
theorem printk_ints {fmt : CString} (hint : (pieces fmt.chars).all Piece.takesInt)
    (hcount : (pieces fmt.chars).countP Piece.isNumber ≤ vs.length)
    : printk fmt.bytes (vs.map .int) ≠ none := by
  obtain ⟨hsupplied, hcomplete⟩ := supplied_ints hint hcount
  exact (printk_ne_none_iff fmt _ hsupplied).mpr hcomplete

end Ints

/--
A number with a width, and a string with a conversion, for which its own call finds the number 7.
-/
theorem staysInside_iff_width
    : let fmt : CString := ⟨[0x61, 0x25, 0x78, 0x32, 0x25, 0x73], by decide⟩
      let args : List Arg := [.int 5, .str ⟨[0x62, 0x25, 0x64], by decide⟩ [.int 7]]
      FormatOk fmt args ∧ (StaysInside fmt args ↔ FormatOk fmt args) := by
  intro fmt args
  have hpieces : pieces fmt.chars = [.literal 0x61, .number (fun v => some (x v 2)), .string] := by rfl
  have hpieces' : pieces [0x62, 0x25, 0x64] = [.literal 0x62, .number d] := by rfl
  refine ⟨?_, staysInside_iff fmt args ?_⟩
  . rw [FormatOk, hpieces]
    simp only [args, Complete, hpieces', and_self]
  . rw [hpieces]
    simp only [args, Supplied, hpieces', and_self]

/--
The loop goes on behind the NUL of `"a%"`.
-/
theorem not_staysInside : ¬ StaysInside ⟨[0x61, 0x25], by decide⟩ [] := by
  have hpieces : pieces [0x61, 0x25] = [.literal 0x61, .lone] := by rfl
  rw [staysInside_iff _ _ (by rw [hpieces]; simp [Supplied]), FormatOk, hpieces]
  simp [Complete]

section Verbatim

theorem printk_of_not_mem {fmt : List (BitVec 8)} (hnul : 0 ∉ fmt) (hpercent : 0x25 ∉ fmt) (args : List Arg)
    : printk (fmt ++ [0]) args = some (fmt, args) := by
  induction fmt with
  | nil => exact printk_nul
  | cons c fmt ih =>
    simp only [List.mem_cons, not_or] at hnul hpercent
    rw [List.cons_append, printk_literal (Ne.symm hnul.1) (Ne.symm hpercent.1), ih hnul.2 hpercent.2]
    rfl

/--
A conversion takes two bytes of the format and prints one, or takes an argument.
-/
theorem length_segments {fmt : List (BitVec 8)} {segs : List (List (BitVec 8))} {rest : List Arg}
    (h : segments (pieces fmt) [] = some (segs, rest))
    : segs.flatten.length ≤ fmt.length ∧ (0x25 ∈ fmt → segs.flatten.length < fmt.length) := by
  induction fmt using pieces.induct generalizing segs with
  | case1 =>
    rw [pieces, segments, Option.some.injEq, Prod.mk.injEq] at h
    rw [← h.1]
    exact ⟨Nat.le_refl 0, by simp⟩
  | case2 => cases h
  | case3 c fmt print hc =>
    rw [pieces_number hc] at h
    cases h
  | case4 c fmt hc =>
    rw [pieces_string hc] at h
    cases h
  | case5 c fmt hc ih =>
    rw [pieces_percent hc] at h
    obtain ⟨tail, hs, rfl⟩ := segment_eq_some h
    have hle := (ih hs).1
    simp only [List.flatten_cons, List.length_append, List.length_cons, List.length_nil]
    omega
  | case6 c fmt hc ih =>
    rw [pieces_unknown hc] at h
    obtain ⟨tail, hs, rfl⟩ := segment_eq_some h
    have hle := (ih hs).1
    simp only [List.flatten_cons, List.length_append, List.length_cons, List.length_nil]
    omega
  | case7 c hc =>
    rw [pieces_hex_end hc] at h
    cases h
  | case8 c hc w fmt hw =>
    rw [pieces_hex_width hc hw] at h
    cases h
  | case9 c hc w fmt hw =>
    rw [pieces_hex hc hw] at h
    cases h
  | case10 c fmt hc ih =>
    rw [pieces_literal hc] at h
    obtain ⟨tail, hs, rfl⟩ := segment_eq_some h
    obtain ⟨hle, hlt⟩ := ih hs
    simp only [List.flatten_cons, List.length_append, List.length_cons, List.length_nil, List.mem_cons]
    refine ⟨by omega, ?_⟩
    rintro (heq | hmem)
    . exact absurd heq.symm hc
    . have := hlt hmem
      omega

/--
`printk("%s", s)` prints `s` and leaves the arguments behind it.
-/
def Verbatim (s : CString) : Prop :=
  ∀ junk args, printk [0x25, 0x73, 0] (.str s junk :: args) = some (s.chars, args)

theorem printk_percent_s (s : CString) (junk args : List Arg)
    : printk [0x25, 0x73, 0] (.str s junk :: args) = (printk s.bytes junk).map fun out => (out.1, args) := by
  rw [printk_string rfl, printk_nul]
  cases printk s.bytes junk <;> simp [putchars]

theorem verbatim_of_not_mem {s : CString} (hpercent : 0x25 ∉ s.chars) : Verbatim s := by
  intro junk args
  rw [printk_percent_s, CString.bytes, printk_of_not_mem s.noNul hpercent]
  rfl

theorem verbatim_iff (s : CString) : Verbatim s ↔ 0x25 ∉ s.chars := by
  constructor
  . intro h hpercent
    have hprint := h [] []
    rw [printk_percent_s, Option.map_eq_some_iff] at hprint
    obtain ⟨⟨out, rest⟩, hprint, heq⟩ := hprint
    rw [CString.bytes, printk_eq s.chars [] s.noNul] at hprint
    obtain ⟨⟨segs, rest⟩, hsegs, hout⟩ := Option.map_eq_some_iff.mp hprint
    simp only [Prod.mk.injEq] at heq hout
    have hlt := (length_segments hsegs).2 hpercent
    rw [hout.1, heq.1] at hlt
    exact Nat.lt_irrefl _ hlt
  . exact verbatim_of_not_mem

/--
The string `"%%"` is printed as `%`.
-/
theorem not_verbatim : ¬ Verbatim ⟨[0x25, 0x25], by decide⟩ := by
  intro h
  have hprint := h [] []
  rw [printk_string rfl, CString.bytes, List.cons_append, List.singleton_append, printk_percent rfl, printk_nul] at hprint
  cases hprint

def upper (c : BitVec 8) : BitVec 8 := if 97 ≤ c.toInt ∧ c.toInt ≤ 122 then c - 32 else c

theorem upper_ne : ∀ c : BitVec 8, c ≠ 0 → c ≠ 0x25 → upper c ≠ 0 ∧ upper c ≠ 0x25 := by
  decide +kernel

theorem printUppercase_eq (s : CString) (hpercent : 0x25 ∉ s.chars)
    : printUppercase s.bytes = some (s.chars.map upper) := by
  obtain ⟨str, hnul⟩ := s
  rw [CString.bytes]
  induction str with
  | nil => rfl
  | cons c str ih =>
    simp only [List.mem_cons, not_or] at hnul hpercent
    obtain ⟨hne, hne'⟩ := upper_ne c (Ne.symm hnul.1) (Ne.symm hpercent.1)
    have hchars : (CString.of [upper c, 0]).chars = [upper c] := by
      change [upper c, 0].takeWhile (· ≠ 0) = [upper c]
      rw [List.takeWhile_cons_of_pos (by simpa using hne)]
      rfl
    have hprint : printk [0x25, 0x73, 0] [.str (.of [upper c, 0]) []] = some ([upper c], []) := by
      rw [verbatim_of_not_mem (by rw [hchars, List.mem_singleton]; exact Ne.symm hne'), hchars]
    rw [List.cons_append, printUppercase, if_neg (Ne.symm hnul.1)]
    change (printk [0x25, 0x73, 0] [.str (.of [upper c, 0]) []]).bind _ = _
    rw [hprint, Option.bind_some]
    have hrest := ih hnul.2 hpercent.2
    dsimp only at hrest ⊢
    rw [hrest]
    rfl

end Verbatim

end Printk
end Osproj
