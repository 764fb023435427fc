import Mathlib
import TinyCLR.Framework.Base64

/-!
# Decoding of Base64

The quartets of a text are decoded from the last to the first. The first that cannot be decoded
decides which exception is thrown.
-/

namespace TinyCLR.Framework.Base64

section Text

/-- Character `i` of quartet `k`. -/
def character (text : List UInt16) (k i : ℕ) : UInt16 := text.getD (4 * k + i) 0

/-- The characters of quartet `k` in front of `i` are decoded. -/
def Reaches (text : List UInt16) (k i : ℕ) : Prop :=
  ∀ j < i, character text k j ≠ padding ∧ (character text k j).toNat < 128

/-- An `=` in quartet `k` that is not at the end of the text. -/
def Misplaced (text : List UInt16) (k : ℕ) : Prop :=
  ∃ i < 4, Reaches text k i ∧ character text k i = padding ∧ (4 * (k + 1) ≠ text.length ∨ i < 2)

/-- A character of quartet `k` for which the table has no element. -/
def BeyondTable (text : List UInt16) (k : ℕ) : Prop :=
  ∃ i < 4, Reaches text k i ∧ 128 ≤ (character text k i).toNat

/-- Among the first `k` quartets, the last that cannot be decoded has a misplaced `=`. -/
def RejectedBelow (text : List UInt16) (k : ℕ) : Prop :=
  ∃ j < k, Misplaced text j ∧ ∀ l, j < l → l < k → ¬BeyondTable text l

/-- The value of character `i` of quartet `k`. -/
def sextet (text : List UInt16) (k i : ℕ) : UInt8 := value (character text k i)

/-- The bytes of quartet `k`. -/
def trio (text : List UInt16) (k : ℕ) : List UInt8 :=
  [byte0 (sextet text k 0) (sextet text k 1), byte1 (sextet text k 1) (sextet text k 2),
    byte2 (sextet text k 2) (sextet text k 3)]

variable {text : List UInt16} {k : ℕ}

theorem not_beyond_of_misplaced (h : Misplaced text k) : ¬BeyondTable text k := by
  rintro ⟨i, -, hreach, hbeyond⟩
  obtain ⟨j, -, hreach', hpad, -⟩ := h
  rcases lt_trichotomy i j with hij | hij | hij
  · have := (hreach' i hij).2
    omega
  · rw [hij, hpad] at hbeyond
    exact absurd hbeyond (by decide)
  · exact (hreach j hij).1 hpad

theorem rejectedBelow_of_misplaced (h : Misplaced text k) : RejectedBelow text (k + 1) :=
  ⟨k, Nat.lt_succ_self k, h, fun l hl hl' => absurd hl' (by omega)⟩

theorem not_rejectedBelow_of_beyond (h : BeyondTable text k) : ¬RejectedBelow text (k + 1) := by
  rintro ⟨j, hj, hmis, hall⟩
  by_cases hjk : j = k
  · exact not_beyond_of_misplaced hmis (hjk ▸ h)
  · exact hall k (by omega) (Nat.lt_succ_self k) h

theorem rejectedBelow_succ (hmis : ¬Misplaced text k) (hbeyond : ¬BeyondTable text k) :
    RejectedBelow text (k + 1) ↔ RejectedBelow text k := by
  constructor
  · rintro ⟨j, hj, hm, hall⟩
    have hjk : j ≠ k := fun h => hmis (h ▸ hm)
    exact ⟨j, by omega, hm, fun l hl hl' => hall l hl (by omega)⟩
  · rintro ⟨j, hj, hm, hall⟩
    refine ⟨j, by omega, hm, fun l hl hl' => ?_⟩
    by_cases hlk : l = k
    · exact hlk ▸ hbeyond
    · exact hall l hl (by omega)

end Text

section Decoding

variable {inString text : List UInt16} {offset start k d n : ℕ} {final : Bool}
  {rgbOutput : List UInt8}

/-- How the loop over the characters of a quartet ends. -/
inductive Reading (text : List UInt16) (k : ℕ) (final : Bool) :
    Except Exception (ℕ × List UInt8) → Prop
  | beyond : BeyondTable text k → Reading text k final (.error .indexOutOfRange)
  | misplaced {i : ℕ} : i < 4 → Reaches text k i → character text k i = padding →
      (final = false ∨ i < 2) → Reading text k final (.error .argument)
  | ended {i : ℕ} {rgb : List UInt8} : Reaches text k i →
      (i = 4 ∨ final = true ∧ 2 ≤ i ∧ i < 4 ∧ character text k i = padding) →
      rgb.length = 4 → (∀ j < i, rgb.getD j 0 = sextet text k j) →
      Reading text k final (.ok (i, rgb))

theorem Reaches.succ {i : ℕ} (h : Reaches text k i) (hpad : character text k i ≠ padding)
    (hlt : (character text k i).toNat < 128) : Reaches text k (i + 1) := by
  intro j hj
  by_cases hji : j = i
  · exact hji ▸ ⟨hpad, hlt⟩
  · exact h j (by omega)

theorem getD_set_self {l : List UInt8} {i : ℕ} (h : i < l.length) (v : UInt8) :
    (l.set i v).getD i 0 = v := by
  rw [List.getD_eq_getElem?_getD, List.getElem?_set_self h]
  rfl

theorem getD_set_of_ne {l : List UInt8} {i j : ℕ} (h : j ≠ i) (v : UInt8) :
    (l.set i v).getD j 0 = l.getD j 0 := by
  rw [List.getD_eq_getElem?_getD, List.getElem?_set_ne h.symm, ← List.getD_eq_getElem?_getD]

theorem readQuartet_spec (hread : ∀ i < 4, inString[start + i]? = some (character text k i))
    (hd : n + d = 4) (hreach : Reaches text k d) (hlength : rgbOutput.length = 4)
    (hrgb : ∀ j < d, rgbOutput.getD j 0 = sextet text k j) :
    Reading text k final (readQuartet inString start final n d rgbOutput) := by
  induction n generalizing d rgbOutput with
  | zero =>
      have hfour : d = 4 := by omega
      rw [readQuartet]
      exact .ended hreach (.inl hfour) hlength hrgb
  | succ n ih =>
      rw [readQuartet, item_ok (hread d (by omega)), Except.bind]
      by_cases hpad : character text k d = padding
      · rw [if_pos hpad]
        split_ifs with hfinal
        · refine .misplaced (show d < 4 by omega) hreach hpad ?_
          rcases hfinal with h | h
          · exact .inr h
          · exact .inl h
        · rw [not_or, Bool.not_eq_false, not_lt] at hfinal
          exact .ended hreach (.inr ⟨hfinal.2, hfinal.1, by omega, hpad⟩) hlength hrgb
      · rw [if_neg hpad]
        by_cases hlt : (character text k d).toNat < 128
        · rw [item_value hlt, Except.bind]
          apply ih (by omega) (hreach.succ hpad hlt) (by rw [List.length_set, hlength])
          intro j hj
          by_cases hjd : j = d
          · rw [hjd, getD_set_self (by omega)]
            rfl
          · rw [getD_set_of_ne hjd]
            exact hrgb j (by omega)
        · rw [item_value_error (by omega), Except.bind]
          exact .beyond ⟨d, by omega, hreach, by omega⟩

theorem put_replicate (c : ℕ) (done : List UInt8) (b : UInt8) :
    Output.put ⟨c + 1, List.replicate (c + 1) 0 ++ done⟩ b =
      .ok ⟨c, List.replicate c 0 ++ b :: done⟩ := by
  have hset : (List.replicate (c + 1) (0 : UInt8) ++ done).set c b =
      List.replicate c 0 ++ b :: done := by
    rw [List.replicate_succ', List.append_assoc,
      List.set_append_right _ _ (by rw [List.length_replicate]), List.length_replicate,
      Nat.sub_self]
    rfl
  rw [Output.put, if_neg, Nat.add_sub_cancel, hset]
  simp
  omega

/-- The bytes that the end of a quartet stands for, when the loop over it ended at `i`. -/
def lastBytes (text : List UInt16) (k i : ℕ) : List UInt8 := (trio text k).take (i - 1)

theorem writeTrio_spec {i c : ℕ} (hi : i = 2 ∨ i = 3 ∨ i = 4) (done : List UInt8)
    (hrgb : ∀ j < i, rgbOutput.getD j 0 = sextet text k j) :
    writeTrio i rgbOutput ⟨c + (i - 1), List.replicate (c + (i - 1)) 0 ++ done⟩ =
      .ok ⟨c, List.replicate c 0 ++ (lastBytes text k i ++ done)⟩ := by
  have h0 := hrgb 0 (by omega)
  have h1 := hrgb 1 (by omega)
  rcases hi with rfl | rfl | rfl
  · simp only [writeTrio, ne_eq, not_true_eq_false, and_false, if_false, h0, h1, bind, Except.bind]
    exact put_replicate c done _
  · have h2 := hrgb 2 (by omega)
    simp only [writeTrio, ne_eq, not_true_eq_false, false_and, if_false,
      show ¬3 = 2 by decide, not_false_eq_true, if_true, h0, h1, h2, bind, Except.bind]
    rw [show c + (3 - 1) = c + 1 + 1 by omega, put_replicate (c + 1)]
    exact put_replicate c _ _
  · have h2 := hrgb 2 (by omega)
    have h3 := hrgb 3 (by omega)
    simp only [writeTrio, ne_eq, show ¬4 = 2 by decide, show ¬4 = 3 by decide, not_false_eq_true,
      true_and, if_true, h0, h1, h2, h3, bind, Except.bind]
    rw [show c + (4 - 1) = c + 1 + 1 + 1 by omega, put_replicate (c + 1 + 1)]
    simp only []
    rw [put_replicate (c + 1)]
    exact put_replicate c _ _

/-- The characters of the range are those of `text`. -/
def ReadsAt (inString : List UInt16) (offset : ℕ) (text : List UInt16) : Prop :=
  ∀ i < text.length, inString[offset + i]? = some (text.getD i 0)

theorem quartet_reading (hread : ReadsAt inString offset text) (hk : 4 * (k + 1) ≤ text.length)
    (hlength : rgbOutput.length = 4) :
    Reading text k final (readQuartet inString (offset + 4 * k) final 4 0 rgbOutput) := by
  apply readQuartet_spec _ rfl (fun j hj => absurd hj (Nat.not_lt_zero j)) hlength
    (fun j hj => absurd hj (Nat.not_lt_zero j))
  intro i hi
  rw [Nat.add_assoc]
  exact hread _ (by omega)

theorem decodeQuartets_step (o : Output) :
    decodeQuartets inString offset (4 * n) (offset + 4 * (k + 1)) rgbOutput o =
      (readQuartet inString (offset + 4 * k) (k + 1 = n) 4 0 rgbOutput).bind fun p =>
        (writeTrio p.1 p.2 o).bind
          (decodeQuartets inString offset (4 * n) (offset + 4 * k) p.2) := by
  have hfinal : (offset + 4 * (k + 1) = offset + 4 * n) = (k + 1 = n) := by
    apply propext
    omega
  rw [decodeQuartets, if_pos (by omega), show offset + 4 * (k + 1) - 4 = offset + 4 * k by omega]
  simp only [hfinal]
  rfl

/-- The first `k` quartets of a text, none of which is its end. -/
theorem decodeQuartets_body (hread : ReadsAt inString offset text) (hn : text.length = 4 * n)
    (hk : k < n) (hlength : rgbOutput.length = 4) (e : ℕ) (done : List UInt8) :
    (∃ r, decodeQuartets inString offset (4 * n) (offset + 4 * k) rgbOutput
          ⟨e + 3 * k, List.replicate (e + 3 * k) 0 ++ done⟩ = r ∧
      (((∀ j < k, Reaches text j 4) ∧
          r = .ok (List.replicate e 0 ++ (List.blocks (trio text) k ++ done))) ∨
        (RejectedBelow text k ∧ r = .error .argument) ∨
        (¬RejectedBelow text k ∧ (∃ j < k, BeyondTable text j) ∧
          r = .error .indexOutOfRange))) := by
  induction k generalizing rgbOutput done with
  | zero =>
      refine ⟨_, rfl, .inl ⟨fun j hj => absurd hj (Nat.not_lt_zero j), ?_⟩⟩
      rw [decodeQuartets, if_neg (by omega)]
      rfl
  | succ k ih =>
      have hreading := @quartet_reading _ _ _ k (k + 1 = n) _ hread (by omega) hlength
      rw [decodeQuartets_step]
      generalize readQuartet inString (offset + 4 * k) (k + 1 = n) 4 0 rgbOutput = q at hreading ⊢
      cases hreading with
      | beyond h =>
          exact ⟨_, rfl, .inr (.inr ⟨not_rejectedBelow_of_beyond h, ⟨k, by omega, h⟩, rfl⟩)⟩
      | misplaced hi hreach hpad _ =>
          exact ⟨_, rfl, .inr (.inl ⟨rejectedBelow_of_misplaced
            ⟨_, hi, hreach, hpad, .inl (by omega)⟩, rfl⟩)⟩
      | @ended i rgb hreach hend hrgb hvalues =>
          have hfour : i = 4 := by
            rcases hend with h | ⟨hfinal, -⟩
            · exact h
            · have := of_decide_eq_true hfinal
              omega
          subst hfour
          have hwrite := @writeTrio_spec text k rgb 4 (e + 3 * k) (.inr (.inr rfl)) done hvalues
          rw [show e + 3 * k + (4 - 1) = e + 3 * (k + 1) by omega] at hwrite
          obtain ⟨r, hr, hcases⟩ := ih (by omega) hrgb (lastBytes text k 4 ++ done)
          refine ⟨r, ?_, ?_⟩
          · rw [← hr]
            simp only [Except.bind, hwrite]
          have hbeyond : ¬BeyondTable text k := by
            rintro ⟨i, hi, -, hb⟩
            have := (hreach i hi).2
            omega
          have hmis : ¬Misplaced text k := by
            rintro ⟨i, hi, -, hp, -⟩
            exact (hreach i hi).1 hp
          rw [rejectedBelow_succ hmis hbeyond]
          rcases hcases with ⟨hall, hr⟩ | h | ⟨hno, ⟨j, hj, hb⟩, hr⟩
          · refine .inl ⟨fun j hj => ?_, ?_⟩
            · by_cases hjk : j = k
              · exact hjk ▸ hreach
              · exact hall j (by omega)
            · rw [hr, List.blocks_succ, List.append_assoc]
              rfl
          · exact .inr (.inl h)
          · exact .inr (.inr ⟨hno, ⟨j, by omega, hb⟩, hr⟩)

end Decoding

section Texts

variable {inString text : List UInt16} {offset n : ℕ}

/-- Bytes in front of the decoded ones that are never written: two when the text ends with a lone
`=` in front of a last character. -/
def unwritten (text : List UInt16) (n i : ℕ) : ℕ :=
  if i = 2 ∧ character text n 3 ≠ padding then 2 else 0

/-- The last quartet of the text is decoded up to `i`. -/
def EndsAt (text : List UInt16) (n i : ℕ) : Prop :=
  Reaches text n i ∧ (i = 4 ∨ (i = 2 ∨ i = 3) ∧ character text n i = padding)

theorem outputLength_eq (hread : ReadsAt inString offset text) (hn : text.length = 4 * (n + 1))
    {i : ℕ} (hends : EndsAt text n i) :
    outputLength inString offset (4 * (n + 1)) = .ok (unwritten text n i + 3 * n + (i - 1)) := by
  have hlast := hread (4 * n + 3) (by omega)
  have hprevious := hread (4 * n + 2) (by omega)
  rw [outputLength, show offset + 4 * (n + 1) - 1 = offset + (4 * n + 3) by omega,
    show offset + 4 * (n + 1) - 2 = offset + (4 * n + 2) by omega, item_ok hlast,
    item_ok hprevious]
  simp only [bind, Except.bind]
  change (if character text n 3 = padding then if character text n 2 = padding then _ else _
    else _) = _
  obtain ⟨hreach, hcase⟩ := hends
  unfold unwritten
  rcases hcase with rfl | ⟨rfl | rfl, hpad⟩
  · rw [if_neg (hreach 3 (by omega)).1, if_neg (by omega)]
    congr 1
    omega
  · by_cases h3 : character text n 3 = padding
    · rw [if_pos h3, if_pos hpad, if_neg (by simp [h3])]
      congr 1
      omega
    · rw [if_neg h3, if_pos ⟨rfl, h3⟩]
      congr 1
      omega
  · rw [if_pos hpad, if_neg (hreach 2 (by omega)).1, if_neg (by omega)]
    congr 1
    omega

theorem outputLength_ok (hread : ReadsAt inString offset text) (hn : text.length = 4 * (n + 1)) :
    ∃ c, outputLength inString offset (4 * (n + 1)) = .ok c := by
  have hlast := hread (4 * n + 3) (by omega)
  have hprevious := hread (4 * n + 2) (by omega)
  rw [outputLength, show offset + 4 * (n + 1) - 1 = offset + (4 * n + 3) by omega,
    show offset + 4 * (n + 1) - 2 = offset + (4 * n + 2) by omega, item_ok hlast,
    item_ok hprevious]
  simp only [bind, Except.bind]
  split_ifs <;> exact ⟨_, rfl⟩

/-- Which exception a text causes, or which bytes it stands for. -/
theorem fromBase64CharArray_spec (hread : ReadsAt inString offset text)
    (hn : text.length = 4 * (n + 1)) :
    (RejectedBelow text (n + 1) ∧
        fromBase64CharArray inString offset (4 * (n + 1)) = .error .argument) ∨
      (¬RejectedBelow text (n + 1) ∧ (∃ k < n + 1, BeyondTable text k) ∧
        fromBase64CharArray inString offset (4 * (n + 1)) = .error .indexOutOfRange) ∨
      (¬RejectedBelow text (n + 1) ∧ (∀ k < n, Reaches text k 4) ∧ ∃ i, EndsAt text n i ∧
        fromBase64CharArray inString offset (4 * (n + 1)) =
          .ok (List.replicate (unwritten text n i) 0 ++
            (List.blocks (trio text) n ++ lastBytes text n i))) := by
  have hlength : (List.replicate 4 (0 : UInt8)).length = 4 := List.length_replicate
  have hreading := @quartet_reading _ _ _ n true _ hread (by omega) hlength
  have hopen : ∀ c, outputLength inString offset (4 * (n + 1)) = .ok c →
      fromBase64CharArray inString offset (4 * (n + 1)) =
        (readQuartet inString (offset + 4 * n) true 4 0 (List.replicate 4 0)).bind fun p =>
          (writeTrio p.1 p.2 ⟨c, List.replicate c 0⟩).bind
            (decodeQuartets inString offset (4 * (n + 1)) (offset + 4 * n) p.2) := by
    intro c hc
    rw [fromBase64CharArray, if_neg (by omega), if_neg (by omega), hc]
    simp only [bind, Except.bind]
    rw [decodeQuartets_step]
    simp only [decide_true]
    rfl
  generalize readQuartet inString (offset + 4 * n) true 4 0 (List.replicate 4 0) = q
    at hreading hopen
  obtain ⟨c, hc⟩ := outputLength_ok hread hn
  cases hreading with
  | beyond h =>
      refine .inr (.inl ⟨not_rejectedBelow_of_beyond h, ⟨n, Nat.lt_succ_self n, h⟩, ?_⟩)
      rw [hopen c hc]
      rfl
  | misplaced hi hreach hpad hfinal =>
      refine .inl ⟨rejectedBelow_of_misplaced ⟨_, hi, hreach, hpad, .inr ?_⟩, ?_⟩
      · rcases hfinal with h | h
        · exact absurd h (by decide)
        · exact h
      · rw [hopen c hc]
        rfl
  | @ended i rgb hreach hend hrgb hvalues =>
      have hi : i = 2 ∨ i = 3 ∨ i = 4 := by omega
      have hends : EndsAt text n i := by
        refine ⟨hreach, ?_⟩
        rcases hend with h | ⟨-, h2, h4, hpad⟩
        · exact .inl h
        · exact .inr ⟨by omega, hpad⟩
      have hmis : ¬Misplaced text n := by
        rintro ⟨j, hj, hreach', hpad, hwhere⟩
        have hj2 : j < 2 := hwhere.resolve_left (by omega)
        exact (hreach j (by omega)).1 hpad
      have hbeyond : ¬BeyondTable text n := by
        rintro ⟨j, hj, hreach', hb⟩
        rcases lt_or_ge j i with hji | hji
        · have := (hreach j hji).2
          omega
        · rcases hend with h | ⟨-, h2, h4, hpad⟩
          · omega
          · by_cases hji' : j = i
            · rw [hji', hpad] at hb
              exact absurd hb (by decide)
            · exact (hreach' i (by omega)).1 hpad
      have hwrite := writeTrio_spec (c := unwritten text n i + 3 * n) hi [] hvalues
      rw [List.append_nil, List.append_nil] at hwrite
      rw [hopen _ (outputLength_eq hread hn hends), rejectedBelow_succ hmis hbeyond]
      simp only [Except.bind, hwrite]
      obtain ⟨r, hr, hcases⟩ := decodeQuartets_body hread hn (Nat.lt_succ_self n) hrgb
        (unwritten text n i) (lastBytes text n i)
      rw [hr]
      rcases hcases with ⟨hall, hr⟩ | h | ⟨hno, ⟨j, hj, hb⟩, hr⟩
      · refine .inr (.inr ⟨?_, hall, i, hends, hr⟩)
        rintro ⟨j, hj, ⟨l, hl, -, hp, -⟩, -⟩
        exact (hall j hj l hl).1 hp
      · exact .inl h
      · exact .inr (.inl ⟨hno, ⟨j, by omega, hb⟩, hr⟩)

end Texts

section Reencoding

variable {e : Bool} {text : List UInt16} {n i j : ℕ}

theorem sextets_bytes {v0 v1 v2 v3 : UInt8} (h0 : v0.toNat < 64) (h1 : v1.toNat < 64)
    (h2 : v2.toNat < 64) (h3 : v3.toNat < 64) :
    sextets (byte0 v0 v1) (byte1 v1 v2) (byte2 v2 v3) = [v0, v1, v2, v3] := by
  have hb0 := byte0_toNat h0 h1
  have hb1 := byte1_toNat h1 h2
  have hb2 := byte2_toNat h2 h3
  rw [sextets, show sextet0 (byte0 v0 v1) = v0 from UInt8.toNat_inj.mp ?_,
    show sextet1 (byte0 v0 v1) (byte1 v1 v2) = v1 from UInt8.toNat_inj.mp ?_,
    show sextet2 (byte1 v1 v2) (byte2 v2 v3) = v2 from UInt8.toNat_inj.mp ?_,
    show sextet3 (byte2 v2 v3) = v3 from UInt8.toNat_inj.mp ?_]
  · rw [sextet3_toNat]
    omega
  · rw [sextet2_toNat]
    omega
  · rw [sextet1_toNat]
    omega
  · rw [sextet0_toNat]
    omega

theorem bytes_sextets (a b c : UInt8) :
    byte0 (sextet0 a) (sextet1 a b) = a ∧ byte1 (sextet1 a b) (sextet2 b c) = b ∧
      byte2 (sextet2 b c) (sextet3 c) = c := by
  have hlt := sextets_lt a b c
  simp only [sextets, List.mem_cons, List.not_mem_nil, or_false, forall_eq_or_imp, forall_eq]
    at hlt
  obtain ⟨h0, h1, h2, h3⟩ := hlt
  have ha := a.toNat_lt
  have hb := b.toNat_lt
  have hc := c.toNat_lt
  refine ⟨UInt8.toNat_inj.mp ?_, UInt8.toNat_inj.mp ?_, UInt8.toNat_inj.mp ?_⟩
  · rw [byte0_toNat h0 h1, sextet0_toNat, sextet1_toNat]
    omega
  · rw [byte1_toNat h1 h2, sextet1_toNat, sextet2_toNat]
    omega
  · rw [byte2_toNat h2 h3, sextet2_toNat, sextet3_toNat]
    omega

/-- The characters of quartet `k`. -/
def quartetAt (text : List UInt16) (k : ℕ) : List UInt16 :=
  [character text k 0, character text k 1, character text k 2, character text k 3]

theorem quartetAt_getElem? (k : ℕ) (hi : i < 4) :
    (quartetAt text k)[i]? = some (character text k i) := by
  interval_cases i <;> rfl

theorem blocks_quartetAt (hn : text.length = 4 * n) : List.blocks (quartetAt text) n = text := by
  have hwindow : List.blocks (fun k => text.window (4 * k) 4) n = text := by
    rw [List.blocks_window, ← hn, List.take_length]
  rw [← hwindow]
  apply List.blocks_congr
  intro k hk
  rw [hwindow]
  apply List.ext_getElem?
  intro i
  rw [List.getElem?_window]
  by_cases hi : i < 4
  · rw [if_pos hi, quartetAt_getElem? k hi, character, List.getD_eq_getElem?_getD,
      List.getElem?_eq_getElem (show 4 * k + i < text.length by omega)]
    rfl
  · rw [if_neg hi]
    exact List.getElem?_eq_none (by simpa [quartetAt] using hi)

theorem length_trio (text : List UInt16) (k : ℕ) : (trio text k).length = 3 := rfl

theorem sextet_lt (h : Reaches text n i) (hj : j < i) : (sextet text n j).toNat < 64 :=
  value_lt (h j hj).2

/-- The text of a trio of decoded bytes. -/
theorem quartetOf_trio (hreach : Reaches text j 4) {r : List UInt8} (hj : j < n) :
    quartetOf e (List.blocks (trio text) n ++ r) j =
      [symbol e (sextet text j 0), symbol e (sextet text j 1), symbol e (sextet text j 2),
        symbol e (sextet text j 3)] := by
  have hget (l : ℕ) (hl : l < 3) :
      (List.blocks (trio text) n ++ r).getD (3 * j + l) 0 = (trio text j).getD l 0 := by
    rw [List.getD_eq_getElem?_getD, List.getElem?_blocks (fun k _ => length_trio text k) hj hl,
      ← List.getD_eq_getElem?_getD]
  have h0 := hget 0 (by omega)
  rw [Nat.add_zero] at h0
  rw [quartetOf, h0, hget 1 (by omega), hget 2 (by omega)]
  change List.map (symbol e) (sextets (byte0 _ _) (byte1 _ _) (byte2 _ _)) = _
  rw [sextets_bytes (sextet_lt hreach (by omega)) (sextet_lt hreach (by omega))
    (sextet_lt hreach (by omega)) (sextet_lt hreach (by omega))]
  rfl

theorem encodeText_blocks {B : List UInt8} {m : ℕ} (hB : B.length = 3 * n + m) (hm : 1 ≤ m)
    (hm' : m ≤ 3) : encodeText e B = List.blocks (quartetOf e B) n ++
      ((quartetOf e B n).take (m + 1) ++ List.replicate (3 - m) padding) := by
  have hpads : pads B.length = 3 - m := by
    rw [pads, hB]
    omega
  have htake : (List.blocks (quartetOf e B) (n + 1)).take (4 * (n + 1) - (3 - m)) =
      List.blocks (quartetOf e B) n ++ (quartetOf e B n).take (m + 1) := by
    have hlength := length_blocks_quartetOf e B n
    rw [List.blocks_succ, List.take_append, hlength, List.take_of_length_le (by omega),
      show 4 * (n + 1) - (3 - m) - 4 * n = m + 1 by omega]
  rw [encodeText, hpads, show (B.length + 2) / 3 = n + 1 by omega, htake, List.append_assoc]

/-- The text of the last decoded bytes, with its padding. -/
theorem quartetOf_last (hends : EndsAt text n i) {B : List UInt8}
    (hB : B = List.blocks (trio text) n ++ lastBytes text n i) :
    ∃ v : UInt8, v.toNat = (sextet text n (i - 1)).toNat / 4 ^ (4 - i) * 4 ^ (4 - i) ∧
      (quartetOf e B n).take i =
        ((List.range (i - 1)).map fun j => symbol e (sextet text n j)) ++ [symbol e v] := by
  have hget (l : ℕ) : B.getD (3 * n + l) 0 = (lastBytes text n i).getD l 0 := by
    rw [hB, List.getD_eq_getElem?_getD, List.getElem?_after_blocks fun k _ => length_trio text k,
      ← List.getD_eq_getElem?_getD]
  have h0 := hget 0
  rw [Nat.add_zero] at h0
  rw [quartetOf, h0, hget 1, hget 2]
  obtain ⟨hreach, hcase⟩ := hends
  rcases hcase with rfl | ⟨rfl | rfl, -⟩
  · refine ⟨sextet text n 3, by simp, ?_⟩
    change List.take 4 (List.map (symbol e) (sextets (byte0 _ _) (byte1 _ _) (byte2 _ _))) = _
    rw [sextets_bytes (sextet_lt hreach (by omega)) (sextet_lt hreach (by omega))
      (sextet_lt hreach (by omega)) (sextet_lt hreach (by omega))]
    rfl
  · have h0 := sextet_lt hreach (show 0 < 2 by omega)
    have h1 := sextet_lt hreach (show 1 < 2 by omega)
    refine ⟨sextet1 (byte0 (sextet text n 0) (sextet text n 1)) 0, ?_, ?_⟩
    · rw [sextet1_toNat, byte0_toNat h0 h1]
      change 16 * ((4 * (sextet text n 0).toNat + (sextet text n 1).toNat / 16) % 4) + 0 / 16 =
        (sextet text n 1).toNat / 16 * 16
      omega
    · have hfirst : sextet0 (byte0 (sextet text n 0) (sextet text n 1)) = sextet text n 0 := by
        apply UInt8.toNat_inj.mp
        rw [sextet0_toNat, byte0_toNat h0 h1]
        omega
      change [symbol e (sextet0 (byte0 (sextet text n 0) (sextet text n 1))), _] = _
      rw [hfirst]
      rfl
  · have h0 := sextet_lt hreach (show 0 < 3 by omega)
    have h1 := sextet_lt hreach (show 1 < 3 by omega)
    have h2 := sextet_lt hreach (show 2 < 3 by omega)
    refine ⟨sextet2 (byte1 (sextet text n 1) (sextet text n 2)) 0, ?_, ?_⟩
    · rw [sextet2_toNat, byte1_toNat h1 h2]
      change 4 * ((16 * ((sextet text n 1).toNat % 16) + (sextet text n 2).toNat / 4) % 16) +
        0 / 64 = (sextet text n 2).toNat / 4 * 4
      omega
    · have hfirst : sextet0 (byte0 (sextet text n 0) (sextet text n 1)) = sextet text n 0 := by
        apply UInt8.toNat_inj.mp
        rw [sextet0_toNat, byte0_toNat h0 h1]
        omega
      have hsecond : sextet1 (byte0 (sextet text n 0) (sextet text n 1))
          (byte1 (sextet text n 1) (sextet text n 2)) = sextet text n 1 := by
        apply UInt8.toNat_inj.mp
        rw [sextet1_toNat, byte0_toNat h0 h1, byte1_toNat h1 h2]
        omega
      change [symbol e (sextet0 (byte0 (sextet text n 0) (sextet text n 1))),
        symbol e (sextet1 (byte0 (sextet text n 0) (sextet text n 1))
          (byte1 (sextet text n 1) (sextet text n 2))), _] = _
      rw [hfirst, hsecond]
      rfl

/-- Characters of the alphabets up to an end, padding behind it, and no unused bits. -/
def CanonicalAt (text : List UInt16) (l : ℕ) : Prop :=
  (∀ i < l, InAlphabet (text.getD i 0)) ∧
    (∀ i, l ≤ i → i < text.length → text.getD i 0 = padding) ∧
    (value (text.getD (l - 1) 0)).toNat % 4 ^ (text.length - l) = 0

/-- A text that the encoder could have written with one of the alphabets. -/
def Canonical (text : List UInt16) : Prop :=
  ∃ p ≤ 2, CanonicalAt text (text.length - p)

/-- The padding of a canonical text begins where decoding ended. -/
theorem canonical_iff (hn : text.length = 4 * (n + 1)) (hends : EndsAt text n i) :
    Canonical text ↔ CanonicalAt text (4 * n + i) := by
  obtain ⟨hreach, hcase⟩ := hends
  constructor
  · rintro ⟨p, hp, hcanonical⟩
    have hi : text.length - p = 4 * n + i := by
      rcases lt_trichotomy (text.length - p) (4 * n + i) with h | h | h
      · have hpad := hcanonical.2.1 (text.length - p) le_rfl (by omega)
        rw [show text.length - p = 4 * n + (4 - p) by omega] at hpad
        exact absurd hpad (hreach (4 - p) (by omega)).1
      · exact h
      · rcases hcase with rfl | ⟨hi, hpad⟩
        · omega
        · exact absurd hpad (inAlphabet_ne_padding (hcanonical.1 (4 * n + i) h))
    exact hi ▸ hcanonical
  · intro h
    refine ⟨4 - i, by omega, ?_⟩
    rw [show text.length - (4 - i) = 4 * n + i by omega]
    exact h

theorem canonicalAt_iff (hn : text.length = 4 * (n + 1)) (hi : i = 4 ∨ i = 2 ∨ i = 3) :
    CanonicalAt text (4 * n + i) ↔ (∀ k < n, ∀ l < 4, InAlphabet (character text k l)) ∧
      (∀ l < i, InAlphabet (character text n l)) ∧
      (∀ l, i ≤ l → l < 4 → character text n l = padding) ∧
      (sextet text n (i - 1)).toNat % 4 ^ (4 - i) = 0 := by
  have hbits : (value (text.getD (4 * n + i - 1) 0)).toNat % 4 ^ (text.length - (4 * n + i)) =
      (sextet text n (i - 1)).toNat % 4 ^ (4 - i) := by
    rw [hn, show 4 * n + i - 1 = 4 * n + (i - 1) by omega,
      show 4 * (n + 1) - (4 * n + i) = 4 - i by omega]
    rfl
  rw [CanonicalAt, hbits]
  constructor
  · rintro ⟨hin, hpad, hzero⟩
    exact ⟨fun k hk l hl => hin _ (by omega), fun l hl => hin _ (by omega),
      fun l hl hl' => hpad _ (by omega) (by omega), hzero⟩
  · rintro ⟨hbody, hin, hpad, hzero⟩
    refine ⟨fun j hj => ?_, fun j hj hj' => ?_, hzero⟩
    · by_cases hbelow : j < 4 * n
      · have h := hbody (j / 4) (by omega) (j % 4) (by omega)
        rwa [character, Nat.div_add_mod] at h
      · have h := hin (j - 4 * n) (by omega)
        rwa [character, Nat.add_sub_cancel' (by omega)] at h
    · have h := hpad (j - 4 * n) (by omega) (by omega)
      rwa [character, Nat.add_sub_cancel' (by omega)] at h

theorem forall_lt_four {P : ℕ → Prop} : (∀ l < 4, P l) ↔ P 0 ∧ P 1 ∧ P 2 ∧ P 3 := by
  constructor
  · intro h
    exact ⟨h 0 (by omega), h 1 (by omega), h 2 (by omega), h 3 (by omega)⟩
  · rintro ⟨h0, h1, h2, h3⟩ l hl
    interval_cases l
    · exact h0
    · exact h1
    · exact h2
    · exact h3

theorem symbols_eq_iff (hreach : Reaches text j 4) :
    [symbol e (sextet text j 0), symbol e (sextet text j 1), symbol e (sextet text j 2),
        symbol e (sextet text j 3)].map normal = (quartetAt text j).map normal ↔
      ∀ l < 4, InAlphabet (character text j l) := by
  have hsymbol (l : ℕ) (hl : l < 4) :
      normal (symbol e (sextet text j l)) = normal (character text j l) ↔
        InAlphabet (character text j l) := by
    rw [normal_symbol_eq_iff (sextet_lt hreach hl), sextet]
    exact and_iff_left rfl
  simp only [quartetAt, List.map_cons, List.map_nil, List.cons.injEq, and_true,
    hsymbol 0 (by omega), hsymbol 1 (by omega), hsymbol 2 (by omega), hsymbol 3 (by omega),
    forall_lt_four]

theorem normal_padding : normal padding = padding := (normal_eq_padding padding).mpr rfl

theorem last_eq_iff (hends : EndsAt text n i) {v : UInt8}
    (hv : v.toNat = (sextet text n (i - 1)).toNat / 4 ^ (4 - i) * 4 ^ (4 - i)) :
    ((((List.range (i - 1)).map fun j => symbol e (sextet text n j)) ++ [symbol e v]) ++
        List.replicate (4 - i) padding).map normal = (quartetAt text n).map normal ↔
      (∀ l < i, InAlphabet (character text n l)) ∧
        (∀ l, i ≤ l → l < 4 → character text n l = padding) ∧
        (sextet text n (i - 1)).toNat % 4 ^ (4 - i) = 0 := by
  obtain ⟨hreach, hcase⟩ := hends
  have hi : i = 4 ∨ i = 2 ∨ i = 3 := by omega
  have hsymbol (l : ℕ) (hl : l < i) :
      normal (symbol e (sextet text n l)) = normal (character text n l) ↔
        InAlphabet (character text n l) := by
    rw [normal_symbol_eq_iff (sextet_lt hreach hl), sextet]
    exact and_iff_left rfl
  have hlast : normal (symbol e v) = normal (character text n (i - 1)) ↔
      InAlphabet (character text n (i - 1)) ∧
        (sextet text n (i - 1)).toNat % 4 ^ (4 - i) = 0 := by
    have hlt := sextet_lt hreach (show i - 1 < i by omega)
    have hvlt : v.toNat < 64 := by
      rw [hv]
      exact lt_of_le_of_lt (Nat.div_mul_le_self _ _) hlt
    rw [normal_symbol_eq_iff hvlt]
    apply and_congr_right
    intro _
    change sextet text n (i - 1) = v ↔ _
    rw [← UInt8.toNat_inj, hv]
    have := Nat.div_add_mod (sextet text n (i - 1)).toNat (4 ^ (4 - i))
    rw [Nat.mul_comm] at this
    omega
  have hpadding (l : ℕ) : padding = normal (character text n l) ↔ character text n l = padding := by
    rw [eq_comm, normal_eq_padding]
  have hall : ((∀ l < i, InAlphabet (character text n l)) ∧
      ∀ l, i ≤ l → l < 4 → character text n l = padding) ↔
      ∀ l < 4, if l < i then InAlphabet (character text n l) else
        character text n l = padding := by
    constructor
    · rintro ⟨hin, hpad⟩ l hl
      split_ifs with h
      · exact hin l h
      · exact hpad l (by omega) hl
    · intro h
      refine ⟨fun l hl => ?_, fun l hl hl' => ?_⟩
      · have := h l (by omega)
        rwa [if_pos hl] at this
      · have := h l hl'
        rwa [if_neg (by omega)] at this
  rw [← and_assoc, hall, forall_lt_four, List.map_append, List.map_append, List.map_replicate,
    normal_padding]
  rcases hcase with rfl | ⟨rfl | rfl, hpad⟩
  · change [normal _, normal _, normal _, normal (symbol e v)] = _ ↔ _
    simp only [quartetAt, List.map_cons, List.map_nil, List.cons.injEq, and_true,
      hsymbol 0 (by omega), hsymbol 1 (by omega), hsymbol 2 (by omega)]
    rw [hlast]
    simp only [Nat.reduceLT, if_true, Nat.reduceSub, and_assoc]
  · change [normal _, normal (symbol e v), padding, padding] = _ ↔ _
    simp only [quartetAt, List.map_cons, List.map_nil, List.cons.injEq, and_true,
      hsymbol 0 (by omega), hpadding]
    rw [hlast]
    simp only [Nat.reduceLT, if_true, if_false, Nat.reduceSub]
    tauto
  · change [normal _, normal _, normal (symbol e v), padding] = _ ↔ _
    simp only [quartetAt, List.map_cons, List.map_nil, List.cons.injEq, and_true,
      hsymbol 0 (by omega), hsymbol 1 (by omega), hpadding]
    rw [hlast]
    simp only [Nat.reduceLT, if_true, if_false, Nat.reduceSub]
    tauto

end Reencoding

end TinyCLR.Framework.Base64
