import Mathlib
import TinyCLR.Framework.Base64Decoding

/-!
# Round trips of Base64

Encoded bytes are decoded to themselves, and decoded texts are encoded to themselves up to the two
alphabets when they are canonical.
-/

namespace TinyCLR.Framework.Base64

section RoundTrip

variable {e : Bool} {text : List UInt16} {x : List UInt8} {n i : ℕ}

theorem mem_blocks_quartetOf {c : UInt16} (h : c ∈ List.blocks (quartetOf e x) n) :
    c ∈ rgchBase64Encoding e := by
  obtain ⟨j, -, hj⟩ := List.mem_flatMap.mp h
  obtain ⟨v, hv, rfl⟩ := List.mem_map.mp hj
  exact symbol_mem (sextets_lt _ _ _ v hv)

/-- The bytes that a text was decoded to are encoded to it if and only if it is canonical. -/
theorem encodeText_eq_iff (hn : text.length = 4 * (n + 1)) (hbody : ∀ k < n, Reaches text k 4)
    (hends : EndsAt text n i) :
    (encodeText e (List.replicate (unwritten text n i) 0 ++
        (List.blocks (trio text) n ++ lastBytes text n i))).map normal = text.map normal ↔
      Canonical text := by
  have hi : i = 4 ∨ i = 2 ∨ i = 3 := by
    have := hends.2
    omega
  have hlast : (lastBytes text n i).length = i - 1 := by
    rw [lastBytes, List.length_take, length_trio]
    omega
  have hblocks : (List.blocks (trio text) n).length = 3 * n :=
    List.length_blocks fun k _ => length_trio text k
  rw [canonical_iff hn hends, canonicalAt_iff hn hi]
  by_cases hlone : i = 2 ∧ character text n 3 ≠ padding
  · obtain ⟨rfl, hthree⟩ := hlone
    refine iff_of_false (fun h => ?_) fun h => hthree (h.2.2.1 3 (by omega) (by omega))
    have hpad : character text n 2 = padding := by
      rcases hends.2 with h | ⟨-, h⟩
      · omega
      · exact h
    have hquartet : character text n 2 ∈ quartetAt text n := by simp [quartetAt]
    have hmem := List.mem_append_right (List.blocks (quartetAt text) n) hquartet
    rw [← List.blocks_succ, blocks_quartetAt hn] at hmem
    have hmem := List.mem_map_of_mem (f := normal) hmem
    rw [← h] at hmem
    obtain ⟨c, hc, hnormal⟩ := List.mem_map.mp hmem
    rw [hpad, normal_padding, normal_eq_padding] at hnormal
    have hpads : pads (List.replicate (unwritten text n 2) (0 : UInt8) ++
        (List.blocks (trio text) n ++ lastBytes text n 2)).length = 0 := by
      rw [List.length_append, List.length_append, List.length_replicate, hblocks, hlast,
        unwritten, if_pos ⟨rfl, hthree⟩, pads]
      omega
    rw [encodeText, hpads, List.replicate_zero, List.append_nil] at hc
    have hsymbol := mem_blocks_quartetOf (List.mem_of_mem_take hc)
    cases e with
    | false => exact inAlphabet_ne_padding (.inl hsymbol) hnormal
    | true => exact inAlphabet_ne_padding (.inr hsymbol) hnormal
  · rw [unwritten, if_neg hlone, List.replicate_zero, List.nil_append]
    generalize hB : List.blocks (trio text) n ++ lastBytes text n i = B
    have hlength : B.length = 3 * n + (i - 1) := by
      rw [← hB, List.length_append, hblocks, hlast]
    obtain ⟨v, hv, htake⟩ := quartetOf_last (e := e) hends hB.symm
    have htext : text.map normal =
        List.blocks (fun k => (quartetAt text k).map normal) n ++
          (quartetAt text n).map normal := by
      rw [← List.map_blocks, ← List.map_append, ← List.blocks_succ, blocks_quartetAt hn]
    rw [encodeText_blocks hlength (by omega) (by omega), show i - 1 + 1 = i by omega, htake,
      show 3 - (i - 1) = 4 - i by omega]
    rw [htext, List.map_append, List.map_blocks, List.blocks_append_inj (m := 4)
        (fun _ _ => by simp [length_quartetOf]) (fun _ _ => by simp [quartetAt]),
      last_eq_iff hends hv]
    apply and_congr_left
    intro _
    apply forall₂_congr
    intro k hk
    rw [← hB, quartetOf_trio (hbody k hk) hk, symbols_eq_iff (hbody k hk)]

theorem EndsAt.unique {j : ℕ} (hi : EndsAt text n i) (hj : EndsAt text n j) : i = j := by
  obtain ⟨hreach, hcase⟩ := hi
  obtain ⟨hreach', hcase'⟩ := hj
  rcases lt_trichotomy i j with h | h | h
  · rcases hcase with hfour | ⟨-, hpad⟩
    · omega
    · exact absurd hpad (hreach' i h).1
  · exact h
  · rcases hcase' with hfour | ⟨-, hpad⟩
    · omega
    · exact absurd hpad (hreach j h).1

/-- Three bytes, of which those behind the end count as zero. -/
def trioOf (x : List UInt8) (k : ℕ) : List UInt8 :=
  [x.getD (3 * k) 0, x.getD (3 * k + 1) 0, x.getD (3 * k + 2) 0]

theorem trioOf_take {k l : ℕ} (hl : l ≤ 3) (h : 3 * k + l ≤ x.length) :
    (trioOf x k).take l = x.window (3 * k) l := by
  apply List.ext_getElem?
  intro j
  rw [List.getElem?_take, List.getElem?_window]
  by_cases hj : j < l
  · rw [if_pos hj, if_pos hj]
    have hget := List.getElem?_eq_getElem (show 3 * k + j < x.length by omega)
    have hj3 : j < 3 := by omega
    rw [hget]
    interval_cases j
    all_goals
      simp only [trioOf, List.getElem?_cons_zero, List.getElem?_cons_succ,
        List.getD_eq_getElem?_getD]
      rw [List.getElem?_eq_getElem (by omega)]
      rfl
  · rw [if_neg hj, if_neg hj]

theorem quartetOf_symbol (k : ℕ) {l : ℕ} (hl : l < 4) : ∃ v : UInt8, v.toNat < 64 ∧
    (quartetOf e x k).getD l 0 = symbol e v ∧
    v = (sextets (x.getD (3 * k) 0) (x.getD (3 * k + 1) 0) (x.getD (3 * k + 2) 0)).getD l 0 := by
  refine ⟨_, ?_, ?_, rfl⟩
  · apply sextets_lt (x.getD (3 * k) 0) (x.getD (3 * k + 1) 0) (x.getD (3 * k + 2) 0)
    rw [List.getD_eq_getElem (sextets _ _ _) 0 hl]
    exact List.getElem_mem _
  · interval_cases l <;> rfl

variable (hx : x.length = 3 * n + (i - 1)) (hi : i = 4 ∨ i = 2 ∨ i = 3)

include hx hi

theorem length_encodeText : (encodeText e x).length = 4 * (n + 1) := by
  rw [encodeText_blocks hx (by omega) (by omega), List.length_append, List.length_append,
    List.length_take, length_blocks_quartetOf, length_quartetOf, List.length_replicate]
  omega

/-- The characters of a text are symbols, and padding at its end. -/
theorem character_encodeText {k l : ℕ} (hl : l < 4) (hk : k < n ∨ k = n ∧ l < i) :
    character (encodeText e x) k l = (quartetOf e x k).getD l 0 := by
  rw [encodeText_blocks hx (by omega) (by omega), character, List.getD_eq_getElem?_getD,
    List.getD_eq_getElem?_getD]
  rcases hk with hk | ⟨rfl, hli⟩
  · rw [List.getElem?_blocks (fun j _ => length_quartetOf e x j) hk hl]
  · rw [List.getElem?_after_blocks fun j _ => length_quartetOf e x j,
      List.getElem?_append_left (by rw [List.length_take, length_quartetOf]; omega),
      List.getElem?_take_of_lt (by omega)]

theorem character_padding {l : ℕ} (hil : i ≤ l) (hl : l < 4) :
    character (encodeText e x) n l = padding := by
  rw [encodeText_blocks hx (by omega) (by omega), character, List.getD_eq_getElem?_getD,
    List.getElem?_after_blocks fun j _ => length_quartetOf e x j,
    List.getElem?_append_right (by rw [List.length_take, length_quartetOf]; omega),
    List.length_take, length_quartetOf, List.getElem?_replicate, if_pos (by omega)]
  rfl

theorem encodeText_reaches {k l : ℕ} (hl : l ≤ 4) (hk : k < n ∨ k = n ∧ l ≤ i) :
    Reaches (encodeText e x) k l := by
  intro j hj
  obtain ⟨v, hv, hsymbol, -⟩ := quartetOf_symbol (e := e) (x := x) k (show j < 4 by omega)
  rw [character_encodeText hx hi (by omega) (by omega), hsymbol]
  exact ⟨symbol_ne_padding hv, symbol_lt hv⟩

theorem encodeText_ends : EndsAt (encodeText e x) n i := by
  refine ⟨encodeText_reaches hx hi (by omega) (.inr ⟨rfl, le_rfl⟩), ?_⟩
  rcases hi with rfl | hi
  · exact .inl rfl
  · exact .inr ⟨hi, character_padding hx (.inr hi) le_rfl (by omega)⟩

theorem sextet_encodeText {k l : ℕ} (hl : l < 4) (hk : k < n ∨ k = n ∧ l < i) :
    sextet (encodeText e x) k l =
      (sextets (x.getD (3 * k) 0) (x.getD (3 * k + 1) 0) (x.getD (3 * k + 2) 0)).getD l 0 := by
  obtain ⟨v, hv, hsymbol, hvalue⟩ := quartetOf_symbol (e := e) (x := x) k hl
  rw [sextet, character_encodeText hx hi hl hk, hsymbol, value_symbol hv, hvalue]

theorem trio_encodeText {k : ℕ} (hk : k < n) : trio (encodeText e x) k = x.window (3 * k) 3 := by
  have hbytes := bytes_sextets (x.getD (3 * k) 0) (x.getD (3 * k + 1) 0) (x.getD (3 * k + 2) 0)
  rw [← trioOf_take le_rfl (by omega), trio, sextet_encodeText hx hi (by omega) (.inl hk),
    sextet_encodeText hx hi (by omega) (.inl hk), sextet_encodeText hx hi (by omega) (.inl hk),
    sextet_encodeText hx hi (by omega) (.inl hk)]
  change [byte0 (sextet0 _) (sextet1 _ _), byte1 (sextet1 _ _) (sextet2 _ _),
    byte2 (sextet2 _ _) (sextet3 _)] = _
  rw [hbytes.1, hbytes.2.1, hbytes.2.2]
  rfl

theorem lastBytes_encodeText : lastBytes (encodeText e x) n i = x.drop (3 * n) := by
  have hbytes := bytes_sextets (x.getD (3 * n) 0) (x.getD (3 * n + 1) 0) (x.getD (3 * n + 2) 0)
  have hvalue {l : ℕ} (hl : l < 4) (hli : l < i) := sextet_encodeText (e := e) hx hi hl
    (.inr ⟨rfl, hli⟩)
  have hdrop : x.drop (3 * n) = (trioOf x n).take (i - 1) := by
    rw [trioOf_take (by omega) (by omega), List.window,
      List.take_of_length_le (by rw [List.length_drop]; omega)]
  rw [hdrop, lastBytes, trio]
  rcases hi with rfl | rfl | rfl
  · rw [hvalue (show 0 < 4 by omega) (by omega), hvalue (show 1 < 4 by omega) (by omega),
      hvalue (show 2 < 4 by omega) (by omega), hvalue (show 3 < 4 by omega) (by omega)]
    change List.take 3 [byte0 (sextet0 _) (sextet1 _ _), byte1 (sextet1 _ _) (sextet2 _ _),
      byte2 (sextet2 _ _) (sextet3 _)] = _
    rw [hbytes.1, hbytes.2.1, hbytes.2.2]
    rfl
  · rw [hvalue (show 0 < 4 by omega) (by omega), hvalue (show 1 < 4 by omega) (by omega)]
    change [byte0 (sextet0 _) (sextet1 _ _)] = _
    rw [hbytes.1]
    rfl
  · rw [hvalue (show 0 < 4 by omega) (by omega), hvalue (show 1 < 4 by omega) (by omega),
      hvalue (show 2 < 4 by omega) (by omega)]
    change [byte0 (sextet0 _) (sextet1 _ _), byte1 (sextet1 _ _) (sextet2 _ _)] = _
    rw [hbytes.1, hbytes.2.1]
    rfl

theorem fromBase64String_encodeText : fromBase64String (encodeText e x) = .ok x := by
  have hlength := length_encodeText (e := e) hx hi
  have hends := encodeText_ends (e := e) hx hi
  have hread : ReadsAt (encodeText e x) 0 (encodeText e x) := by
    intro j hj
    rw [Nat.zero_add, List.getD_eq_getElem _ _ hj]
    exact List.getElem?_eq_getElem hj
  have hbody {k : ℕ} (hk : k < n) := encodeText_reaches (e := e) hx hi le_rfl (.inl hk)
  have hbeyond : ∀ k < n + 1, ¬BeyondTable (encodeText e x) k := by
    rintro k hk ⟨j, hj, -, hb⟩
    by_cases hkn : k < n
    · have := (hbody hkn j hj).2
      omega
    · rw [show k = n by omega] at hb
      by_cases hji : j < i
      · have := (hends.1 j hji).2
        omega
      · rw [character_padding hx hi (by omega) hj] at hb
        exact absurd hb (by decide)
  have hrejected : ¬RejectedBelow (encodeText e x) (n + 1) := by
    rintro ⟨k, hk, ⟨j, hj, -, hpad, hwhere⟩, -⟩
    by_cases hkn : k < n
    · exact (hbody hkn j hj).1 hpad
    · rw [show k = n by omega] at hpad hwhere
      by_cases hji : j < i
      · exact (hends.1 j hji).1 hpad
      · omega
  rw [fromBase64String, hlength]
  rcases fromBase64CharArray_spec hread hlength with h | h | ⟨-, -, j, hends', hresult⟩
  · exact absurd h.1 hrejected
  · obtain ⟨-, ⟨k, hk, hb⟩, -⟩ := h
    exact absurd hb (hbeyond k hk)
  · rw [hresult, ← hends.unique hends', lastBytes_encodeText hx hi]
    have hlone : ¬(i = 2 ∧ character (encodeText e x) n 3 ≠ padding) := by
      rintro ⟨htwo, h⟩
      exact h (character_padding hx hi (by omega) (by omega))
    rw [unwritten, if_neg hlone, List.replicate_zero, List.nil_append,
      List.blocks_congr fun k hk => trio_encodeText hx hi hk, List.blocks_window,
      List.take_append_drop]

end RoundTrip

section Claims

/-- The range causes an `ArgumentException`, or its bytes are encoded to it up to the alphabets. -/
def Exact (useRFC4648Encoding : Bool) (inString : List UInt16) (offset length : ℕ) : Prop :=
  fromBase64CharArray inString offset length = .error .argument ∨
    ∃ bytes text, fromBase64CharArray inString offset length = .ok bytes ∧
      toBase64String useRFC4648Encoding bytes 0 bytes.length = .ok text ∧
      text.map normal = (inString.window offset length).map normal

/-- The range is empty, or has no whole number of quartets, or lies in the array and is canonical
or has a misplaced `=` behind the last character for which the table has no element. -/
def Decodable (inString : List UInt16) (offset length : ℕ) : Prop :=
  length = 0 ∨ length % 4 ≠ 0 ∨ offset + length ≤ inString.length ∧
    (RejectedBelow (inString.window offset length) (length / 4) ∨
      Canonical (inString.window offset length))

variable {useRFC4648Encoding : Bool} {inString : List UInt16} {offset length n : ℕ}

theorem readsAt_window (h : offset + length ≤ inString.length) :
    ReadsAt inString offset (inString.window offset length) := by
  intro i hi
  rw [List.length_window h] at hi
  rw [List.getD_eq_getElem?_getD, List.getElem?_window, if_pos hi,
    List.getElem?_eq_getElem (show offset + i < inString.length by omega)]
  rfl

theorem window_whole {α : Type} (l : List α) : l.window 0 l.length = l := by
  rw [List.window, List.drop_zero, List.take_length]

theorem exact_iff_of_error (h : fromBase64CharArray inString offset length =
    .error .indexOutOfRange) : ¬Exact useRFC4648Encoding inString offset length := by
  rintro (h' | ⟨bytes, text, h', -⟩)
  · rw [h] at h'
    cases h'
  · rw [h] at h'
    cases h'

theorem outside_error (hlength : length ≠ 0) (hfour : length % 4 = 0)
    (h : inString.length < offset + length) :
    fromBase64CharArray inString offset length = .error .indexOutOfRange := by
  have hitem : item inString (offset + length - 1) = .error .indexOutOfRange := by
    rw [item, List.getElem?_eq_none (by omega)]
    rfl
  rw [fromBase64CharArray, if_neg hlength, if_neg (by simpa using hfour), outputLength, hitem]
  rfl

theorem exact_iff_decodable : Exact useRFC4648Encoding inString offset length ↔
    Decodable inString offset length := by
  by_cases hlength : length = 0
  · refine iff_of_true (.inr ⟨[], [], ?_, rfl, ?_⟩) (.inl hlength)
    · rw [fromBase64CharArray, if_pos hlength]
    · rw [hlength, List.window_zero]
  by_cases hfour : length % 4 ≠ 0
  · refine iff_of_true (.inl ?_) (.inr (.inl hfour))
    rw [fromBase64CharArray, if_neg hlength, if_pos hfour]
  rw [Decodable, or_iff_right hlength, or_iff_right hfour]
  rw [ne_eq, not_not] at hfour
  by_cases hinside : offset + length ≤ inString.length
  · obtain ⟨n, rfl⟩ : ∃ n, length = 4 * (n + 1) := ⟨length / 4 - 1, by omega⟩
    rw [and_iff_right hinside, show 4 * (n + 1) / 4 = n + 1 by omega]
    have hn := List.length_window hinside
    generalize htext : inString.window offset (4 * (n + 1)) = text at hn
    have hread : ReadsAt inString offset text := htext ▸ readsAt_window hinside
    rcases fromBase64CharArray_spec hread hn with ⟨hr, hresult⟩ | ⟨hr, ⟨k, hk, hb⟩, hresult⟩ |
      ⟨hr, hbody, i, hends, hresult⟩
    · exact iff_of_true (.inl hresult) (.inl hr)
    · refine iff_of_false (exact_iff_of_error hresult) ?_
      rintro (h | ⟨p, hp, hcanonical⟩)
      · exact hr h
      · obtain ⟨i, hi, hreach, hbi⟩ := hb
        by_cases hlt : 4 * k + i < text.length - p
        · have := inAlphabet_lt (hcanonical.1 _ hlt)
          rw [character] at hbi
          omega
        · have hpad := hcanonical.2.1 (4 * k + i) (by omega) (by omega)
          rw [character, hpad] at hbi
          exact absurd hbi (by decide)
    · rw [or_iff_right hr, ← encodeText_eq_iff (e := useRFC4648Encoding) hn hbody hends]
      constructor
      · rintro (h | ⟨bytes, t, hbytes, ht, heq⟩)
        · rw [hresult] at h
          cases h
        · rw [hresult, Except.ok.injEq] at hbytes
          rw [toBase64String_eq (by omega), window_whole, Except.ok.injEq] at ht
          rw [hbytes, ht, heq, htext]
      · intro h
        refine .inr ⟨_, encodeText useRFC4648Encoding (List.replicate (unwritten text n i) 0 ++
          (List.blocks (trio text) n ++ lastBytes text n i)), hresult, ?_, ?_⟩
        · rw [toBase64String_eq (by omega), window_whole]
        · rw [h, htext]
  · refine iff_of_false ?_ fun h => hinside h.1
    exact exact_iff_of_error (outside_error hlength hfour (by omega))

/-- What is encoded is decoded to the same bytes. -/
theorem decode_encode {x : List UInt8} (hinside : offset + length ≤ x.length) :
    ∃ text, toBase64String useRFC4648Encoding x offset length = .ok text ∧
      text.length = 4 * ((length + 2) / 3) ∧
      (∃ body, ∃ p ≤ 2, text = body ++ List.replicate p padding ∧
        ∀ c ∈ body, c ∈ rgchBase64Encoding useRFC4648Encoding) ∧
      fromBase64String text = .ok (x.window offset length) := by
  have hwindow := List.length_window hinside
  refine ⟨_, toBase64String_eq hinside, ?_, ⟨_, pads (x.window offset length).length, ?_, rfl,
    fun c hc => mem_blocks_quartetOf (List.mem_of_mem_take hc)⟩, ?_⟩
  · rw [encodeText, List.length_append, List.length_take, length_blocks_quartetOf,
      List.length_replicate, hwindow, pads]
    omega
  · rw [pads]
    omega
  · by_cases hzero : length = 0
    · rw [hzero, List.window_zero]
      rfl
    · obtain ⟨n, i, hi, hsum⟩ : ∃ n i, (i = 4 ∨ i = 2 ∨ i = 3) ∧ length = 3 * n + (i - 1) :=
        ⟨(length - 1) / 3, (length - 1) % 3 + 2, by omega, by omega⟩
      exact fromBase64String_encodeText (hwindow.trans hsum) hi

/-- Encoded bytes are decoded to themselves. A range of characters is rejected, or decoded to
bytes that are encoded to it, exactly when it is canonical or its `=` are seen to be misplaced. -/
theorem base64_exact_iff (useRFC4648Encoding : Bool) (x : List UInt8) (inString : List UInt16)
    (offset length : ℕ) :
    (offset + length ≤ x.length →
      ∃ text, toBase64String useRFC4648Encoding x offset length = .ok text ∧
        text.length = 4 * ((length + 2) / 3) ∧
        (∃ body, ∃ p ≤ 2, text = body ++ List.replicate p padding ∧
          ∀ c ∈ body, c ∈ rgchBase64Encoding useRFC4648Encoding) ∧
        fromBase64String text = .ok (x.window offset length)) ∧
      (Exact useRFC4648Encoding inString offset length ↔ Decodable inString offset length) :=
  ⟨decode_encode, exact_iff_decodable⟩

theorem base64_exact_sample :
    (∃ text, toBase64String true [77, 97, 110, 255] 1 3 = .ok text ∧
      text.length = 4 * ((3 + 2) / 3) ∧
      (∃ body, ∃ p ≤ 2, text = body ++ List.replicate p padding ∧
        ∀ c ∈ body, c ∈ rgchBase64Encoding true) ∧
      fromBase64String text = .ok [97, 110, 255]) ∧
      (Exact true (codeUnits ['Y', 'W', '7', '=']) 0 4 ↔
        Decodable (codeUnits ['Y', 'W', '7', '=']) 0 4) :=
  ⟨(base64_exact_iff true [77, 97, 110, 255] [] 1 3).1 (by decide),
    (base64_exact_iff true [] (codeUnits ['Y', 'W', '7', '=']) 0 4).2⟩

/-- A character outside the alphabets is read as zero, and one that is not ASCII leaves the
table. -/
theorem not_exact_outside :
    ¬Exact true (codeUnits ['A', '?', 'A', 'A']) 0 4 ∧ ¬Exact true [65, 233, 65, 65] 0 4 := by
  have hread : fromBase64CharArray (codeUnits ['A', '?', 'A', 'A']) 0 4 = .ok [0, 0, 0] := by
    decide +kernel
  have hwritten : toBase64String true [0, 0, 0] 0 3 = .ok (codeUnits ['A', 'A', 'A', 'A']) := by
    decide +kernel
  constructor
  · rintro (h | ⟨bytes, text, h, ht, hnormal⟩)
    · rw [hread] at h
      cases h
    · rw [hread, Except.ok.injEq] at h
      rw [← h, List.length_cons, List.length_cons, List.length_cons, List.length_nil, hwritten,
        Except.ok.injEq] at ht
      rw [← ht] at hnormal
      revert hnormal
      decide +kernel
  · exact exact_iff_of_error (by decide +kernel)

end Claims

end TinyCLR.Framework.Base64
