import MixedRadix.Proofs.Scratch

/-!
# Emitted butterflies

The code of a butterfly does what the routine of the same number of points does, operation by
operation: it puts the transform of the values into their symbols, for every arithmetic
(`Butterfly.emits_emit`).
-/

namespace MixedRadix

/-- The transform of two to five points. -/
def ComplexPair.dft {R : Type} [Scalar R] : List (ComplexPair R) → List (ComplexPair R)
  | [x0, x1] =>
    let (y0, y1) := dft2 x0 x1
    [y0, y1]
  | [x0, x1, x2] =>
    let (y0, y1, y2) := dft3 x0 x1 x2
    [y0, y1, y2]
  | [x0, x1, x2, x3] =>
    let (y0, y1, y2, y3) := dft4 x0 x1 x2 x3
    [y0, y1, y2, y3]
  | [x0, x1, x2, x3, x4] =>
    let (y0, y1, y2, y3, y4) := dft5 x0 x1 x2 x3 x4
    [y0, y1, y2, y3, y4]
  | _ => []

/-- Complex values are assigned to pairs of symbols, in this order. -/
noncomputable def Scene.putAll {R : Type} (S : Scene R) (vs : List ComplexSymbol)
    (zs : List (ComplexPair R)) : Scene R :=
  (vs.zip zs).foldl (fun S p => S.put p.1 p.2) S

namespace Butterfly

variable {R : Type} [Scalar R] {S : Scene R} {x0 x1 x2 x3 x4 : ComplexSymbol}
  {v0 v1 v2 v3 v4 : ComplexPair R}

lemma emits_two (h0 : S.HasPair x0 v0) (h1 : S.HasPair x1 v1) (w0 : S.WritablePair x0)
    (w1 : S.WritablePair x1) :
    Emits S (two x0 x1) fun _ S' =>
      S' = (S.put x0 (v0.dft2 v1).1).put x1 (v0.dft2 v1).2 := by
  refine (Scratch.refl S).allocComplex fun t1 _ hs => hs.allocComplex fun t2 _ hs => ?_
  refine hs.lanewise_blank (.pair (hs.basePair h0)) fun _ hs => ?_
  refine hs.lanewise_blank (.pair (hs.basePair h1)) fun _ hs => ?_
  refine hs.lanewise_put w0
    (fun _ _ hs => .add (.pair (hs.pair 0 rfl rfl)) (.pair (hs.pair 1 rfl rfl))) fun _ hs => ?_
  refine hs.lanewise_put (w1.put _ _)
    (fun _ _ hs => .sub (.pair (hs.pair 0 rfl rfl)) (.pair (hs.pair 1 rfl rfl))) fun _ hs => ?_
  exact hs.releaseComplex_all rfl

lemma emits_three (h0 : S.HasPair x0 v0) (h1 : S.HasPair x1 v1) (h2 : S.HasPair x2 v2)
    (w0 : S.WritablePair x0) (w1 : S.WritablePair x1) (w2 : S.WritablePair x2) :
    Emits S (three x0 x1 x2) fun _ S' =>
      S' = ((S.put x0 (v0.dft3 v1 v2).1).put x1 (v0.dft3 v1 v2).2.1).put x2
        (v0.dft3 v1 v2).2.2 := by
  refine (Scratch.refl S).allocComplex fun t1 _ hs => hs.allocComplex fun t2 _ hs =>
    hs.allocComplex fun t3 _ hs => ?_
  refine hs.lanewise_blank (.add (.pair (hs.basePair h1)) (.pair (hs.basePair h2))) fun _ hs => ?_
  refine hs.lanewise_blank
    (.sub (.pair (hs.basePair h0)) (.scale _ (.pair (hs.pair 0 rfl rfl)))) fun _ hs => ?_
  refine hs.lanewise_blank
    (.scale _ (.sub (.pair (hs.basePair h1)) (.pair (hs.basePair h2)))) fun _ hs => ?_
  refine hs.lanewise_accumulate w0 h0 (fun _ _ hs => .pair (hs.pair 0 rfl rfl)) fun _ hs => ?_
  refine hs.put_subI (w1.put _ _) (fun _ _ hs => hs.pair 1 rfl rfl)
    (fun _ _ hs => hs.pair 2 rfl rfl) fun _ hs => ?_
  refine hs.put_addI ((w2.put _ _).put _ _) (fun _ _ hs => hs.pair 1 rfl rfl)
    (fun _ _ hs => hs.pair 2 rfl rfl) fun _ hs => ?_
  exact hs.releaseComplex_all rfl

lemma emits_four (h0 : S.HasPair x0 v0) (h1 : S.HasPair x1 v1) (h2 : S.HasPair x2 v2)
    (h3 : S.HasPair x3 v3) (w0 : S.WritablePair x0) (w1 : S.WritablePair x1)
    (w2 : S.WritablePair x2) (w3 : S.WritablePair x3) :
    Emits S (four x0 x1 x2 x3) fun _ S' =>
      S' = (((S.put x0 (v0.dft4 v1 v2 v3).1).put x1 (v0.dft4 v1 v2 v3).2.1).put x2
        (v0.dft4 v1 v2 v3).2.2.1).put x3 (v0.dft4 v1 v2 v3).2.2.2 := by
  refine (Scratch.refl S).allocComplex fun t1 _ hs => hs.allocComplex fun t2 _ hs =>
    hs.allocComplex fun t3 _ hs => hs.allocComplex fun t4 _ hs => ?_
  refine hs.lanewise_blank (.add (.pair (hs.basePair h0)) (.pair (hs.basePair h2))) fun _ hs => ?_
  refine hs.lanewise_blank (.add (.pair (hs.basePair h1)) (.pair (hs.basePair h3))) fun _ hs => ?_
  refine hs.lanewise_blank (.sub (.pair (hs.basePair h0)) (.pair (hs.basePair h2))) fun _ hs => ?_
  refine hs.lanewise_blank (.sub (.pair (hs.basePair h1)) (.pair (hs.basePair h3))) fun _ hs => ?_
  refine hs.lanewise_put w0
    (fun _ _ hs => .add (.pair (hs.pair 0 rfl rfl)) (.pair (hs.pair 1 rfl rfl))) fun _ hs => ?_
  refine hs.put_subI (w1.put _ _) (fun _ _ hs => hs.pair 2 rfl rfl)
    (fun _ _ hs => hs.pair 3 rfl rfl) fun _ hs => ?_
  refine hs.lanewise_put ((w2.put _ _).put _ _)
    (fun _ _ hs => .sub (.pair (hs.pair 0 rfl rfl)) (.pair (hs.pair 1 rfl rfl))) fun _ hs => ?_
  refine hs.put_addI (((w3.put _ _).put _ _).put _ _) (fun _ _ hs => hs.pair 2 rfl rfl)
    (fun _ _ hs => hs.pair 3 rfl rfl) fun _ hs => ?_
  exact hs.releaseComplex_all rfl

lemma emits_five (h0 : S.HasPair x0 v0) (h1 : S.HasPair x1 v1) (h2 : S.HasPair x2 v2)
    (h3 : S.HasPair x3 v3) (h4 : S.HasPair x4 v4) (w0 : S.WritablePair x0)
    (w1 : S.WritablePair x1) (w2 : S.WritablePair x2) (w3 : S.WritablePair x3)
    (w4 : S.WritablePair x4) :
    Emits S (five x0 x1 x2 x3 x4) fun _ S' =>
      S' = ((((S.put x0 (v0.dft5 v1 v2 v3 v4).1).put x1 (v0.dft5 v1 v2 v3 v4).2.1).put x2
        (v0.dft5 v1 v2 v3 v4).2.2.1).put x3 (v0.dft5 v1 v2 v3 v4).2.2.2.1).put x4
        (v0.dft5 v1 v2 v3 v4).2.2.2.2 := by
  refine (Scratch.refl S).allocComplex fun t1 _ hs => hs.allocComplex fun t2 _ hs =>
    hs.allocComplex fun t3 _ hs => hs.allocComplex fun t4 _ hs => hs.allocComplex fun t5 _ hs =>
    hs.allocComplex fun t6 _ hs => hs.allocComplex fun t7 _ hs => hs.allocComplex fun t8 _ hs =>
    hs.allocComplex fun t9 _ hs => hs.allocComplex fun t10 _ hs =>
    hs.allocComplex fun t11 _ hs => ?_
  refine hs.lanewise_blank (.add (.pair (hs.basePair h1)) (.pair (hs.basePair h4))) fun _ hs => ?_
  refine hs.lanewise_blank (.add (.pair (hs.basePair h2)) (.pair (hs.basePair h3))) fun _ hs => ?_
  refine hs.lanewise_blank (.sub (.pair (hs.basePair h1)) (.pair (hs.basePair h4))) fun _ hs => ?_
  refine hs.lanewise_blank (.sub (.pair (hs.basePair h2)) (.pair (hs.basePair h3))) fun _ hs => ?_
  refine hs.lanewise_blank
    (.add (.pair (hs.pair 0 rfl rfl)) (.pair (hs.pair 1 rfl rfl))) fun _ hs => ?_
  refine hs.lanewise_blank
    (.scale _ (.sub (.pair (hs.pair 0 rfl rfl)) (.pair (hs.pair 1 rfl rfl)))) fun _ hs => ?_
  refine hs.lanewise_blank
    (.sub (.pair (hs.basePair h0)) (.scale _ (.pair (hs.pair 4 rfl rfl)))) fun _ hs => ?_
  refine hs.lanewise_blank
    (.add (.pair (hs.pair 6 rfl rfl)) (.pair (hs.pair 5 rfl rfl))) fun _ hs => ?_
  refine hs.lanewise_blank
    (.sub (.pair (hs.pair 6 rfl rfl)) (.pair (hs.pair 5 rfl rfl))) fun _ hs => ?_
  refine hs.lanewise_blank (.add (.scale _ (.pair (hs.pair 2 rfl rfl)))
    (.scale _ (.pair (hs.pair 3 rfl rfl)))) fun _ hs => ?_
  refine hs.lanewise_blank (.sub (.scale _ (.pair (hs.pair 2 rfl rfl)))
    (.scale _ (.pair (hs.pair 3 rfl rfl)))) fun _ hs => ?_
  simp only [List.nil_append, List.cons_append] at hs
  refine hs.lanewise_accumulate w0 h0 (fun _ _ hs => .pair (hs.pair 4 rfl rfl)) fun _ hs => ?_
  refine hs.put_subI (w1.put _ _) (fun _ _ hs => hs.pair 7 rfl rfl)
    (fun _ _ hs => hs.pair 9 rfl rfl) fun _ hs => ?_
  refine hs.put_subI ((w2.put _ _).put _ _) (fun _ _ hs => hs.pair 8 rfl rfl)
    (fun _ _ hs => hs.pair 10 rfl rfl) fun _ hs => ?_
  refine hs.put_addI (((w3.put _ _).put _ _).put _ _) (fun _ _ hs => hs.pair 8 rfl rfl)
    (fun _ _ hs => hs.pair 10 rfl rfl) fun _ hs => ?_
  refine hs.put_addI ((((w4.put _ _).put _ _).put _ _).put _ _)
    (fun _ _ hs => hs.pair 7 rfl rfl) (fun _ _ hs => hs.pair 9 rfl rfl) fun _ hs => ?_
  exact hs.releaseComplex_all rfl

/-- A butterfly over as many values as a radix has points. -/
lemma emits_emit {xs : List ComplexSymbol} {zs : List (ComplexPair R)} {radix : Radix}
    (hlength : xs.length = radix.size) (hpairs : List.Forall₂ S.HasPair xs zs)
    (hwritable : ∀ x ∈ xs, S.WritablePair x) :
    Emits S (emit xs) fun _ S' => S' = S.putAll xs (ComplexPair.dft zs) := by
  cases radix with
  | two =>
    match xs, zs, hlength, hpairs with
    | [x0, x1], [v0, v1], _, .cons h0 (.cons h1 .nil) =>
      simp only [List.forall_mem_cons] at hwritable
      obtain ⟨w0, w1, -⟩ := hwritable
      exact Emits.recordButterfly.then_ fun _ => emits_two h0 h1 w0 w1
  | three =>
    match xs, zs, hlength, hpairs with
    | [x0, x1, x2], [v0, v1, v2], _, .cons h0 (.cons h1 (.cons h2 .nil)) =>
      simp only [List.forall_mem_cons] at hwritable
      obtain ⟨w0, w1, w2, -⟩ := hwritable
      exact Emits.recordButterfly.then_ fun _ => emits_three h0 h1 h2 w0 w1 w2
  | four =>
    match xs, zs, hlength, hpairs with
    | [x0, x1, x2, x3], [v0, v1, v2, v3], _, .cons h0 (.cons h1 (.cons h2 (.cons h3 .nil))) =>
      simp only [List.forall_mem_cons] at hwritable
      obtain ⟨w0, w1, w2, w3, -⟩ := hwritable
      exact Emits.recordButterfly.then_ fun _ => emits_four h0 h1 h2 h3 w0 w1 w2 w3
  | five =>
    match xs, zs, hlength, hpairs with
    | [x0, x1, x2, x3, x4], [v0, v1, v2, v3, v4], _,
        .cons h0 (.cons h1 (.cons h2 (.cons h3 (.cons h4 .nil)))) =>
      simp only [List.forall_mem_cons] at hwritable
      obtain ⟨w0, w1, w2, w3, w4, -⟩ := hwritable
      exact Emits.recordButterfly.then_ fun _ => emits_five h0 h1 h2 h3 h4 w0 w1 w2 w3 w4

end Butterfly

end MixedRadix
