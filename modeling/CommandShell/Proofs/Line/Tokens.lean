import CommandShell.Proofs.Line.Quoted
import CommandShell.Proofs.Line.Words
/-!
# The tokens of a line lose nothing

A line is its tokens and the blanks around them.  Each token stands in the line at the bytes that it
names, and the scanner comes to it outside quotes, where a token by itself begins too.  So a token
that is scanned alone is that token again, and what reads its quotes begins as the scanner did.

    t.StandsIn s       s is a ++ t.text ++ b, from the byte t.start to the byte t.stop
    a line is blank, or a line with one token less, that token, and blanks   (tokenize_induction)
    tokens stand in their line, in order and apart                           (standsIn_of_mem_tokenize,
                                                                              pairwise_tokenize)
    tokens and the blanks between them make the line                         (tokenize_pieces)
    a token by itself is one token                                           (tokenize_token)
-/

namespace CommandShell.Line

open CommandShell.Text

/-! ## Lines by their last token -/

/-- No token holds a blank at which it would be cut. -/
theorem sealed_of_mem_tokensFrom {mode : Mode} {pos : Nat} {w : Option OpenWord} {s : List Char}
    (hnone : w = none → mode = .start)
    (hopen : ∀ o, w = some o →
      Sealed .start o.chars.reverse ∧ Mode.start.advanceAll o.chars.reverse = mode)
    {t : Token} (ht : t ∈ tokensFrom mode pos w s) : Sealed .start t.text := by
  induction s generalizing mode pos w with
  | nil =>
    cases w with
    | none => cases ht
    | some o =>
      obtain rfl := List.mem_singleton.1 ht
      exact (hopen o rfl).1
  | cons c s ih =>
    rcases blank_or_inside mode c with ⟨rfl, hc⟩ | hc
    · rw [tokensFrom_blank hc, List.mem_append] at ht
      rcases ht with ht | ht
      · cases w with
        | none => cases ht
        | some o =>
          obtain rfl := List.mem_singleton.1 ht
          exact (hopen o rfl).1
      · exact ih (fun _ => rfl) (fun o ho => by cases ho) ht
    · rw [tokensFrom_inside hc] at ht
      refine ih (fun h => by cases h) (fun o ho => ?_) ht
      obtain rfl := Option.some.inj ho
      have hlast (m : Mode) (hm : m = mode) : Sealed m [c] :=
        ⟨fun h => by rw [hm, ← Bool.and_eq_true, hc] at h; exact Bool.false_ne_true h, trivial⟩
      cases w with
      | none =>
        obtain rfl := hnone rfl
        exact ⟨hlast .start rfl, rfl⟩
      | some o =>
        obtain ⟨hsealed, hmode⟩ := hopen o rfl
        show Sealed .start (c :: o.chars).reverse ∧ _
        rw [List.reverse_cons]
        refine ⟨noneBare_append.2 ⟨hsealed, hlast _ hmode⟩, ?_⟩
        show Mode.start.advanceAll (c :: o.chars).reverse = _
        rw [List.reverse_cons, Mode.advanceAll_append, hmode]
        rfl

theorem sealed_of_mem_tokenize {s : List Char} {t : Token} (ht : t ∈ tokenize s) :
    Sealed .start t.text :=
  sealed_of_mem_tokensFrom (fun _ => rfl) (fun o ho => by cases ho) ht

/-- What holds of blank lines, and of a line if it holds of what stands before its last token,
holds of every line. -/
theorem tokenize_induction {motive : List Char → Prop}
    (blank : ∀ s, (∀ c ∈ s, isBlank c = true) → tokenize s = [] → motive s)
    (token : ∀ a x b, Mode.start.advanceAll a = .start → x ≠ [] → Sealed .start x →
      (∀ c ∈ b, isBlank c = true) →
      tokenize (a ++ x ++ b) = tokenize a ++ [⟨x, byteLength a, byteLength (a ++ x)⟩] →
      motive a → motive (a ++ x ++ b))
    (s : List Char) : motive s := by
  induction hn : s.length using Nat.strongRecOn generalizing s with
  | ind n ih =>
    cases hlast : (tokenize s).getLast? with
    | none =>
      have hnone : tokenize s = [] := List.getLast?_eq_none_iff.1 hlast
      exact blank s (blank_of_tokensFrom hnone) hnone
    | some last =>
      have hsealed := sealed_of_mem_tokenize (List.mem_of_getLast? hlast)
      obtain ⟨a, b, hs, hmode, hne, hb, hstart, hstop, htokens⟩ := tokenize_last hlast
      obtain ⟨x, start, stop⟩ := last
      dsimp only at hs hne hstart hstop hsealed
      subst hs hstart hstop
      have hx := List.length_pos_iff.2 hne
      have hlen : a.length < n := by
        rw [← hn, List.length_append, List.length_append]
        omega
      exact token a x b hmode hne hsealed hb htokens (ih a.length hlen a rfl)

/-! ## Where the tokens are -/

/-- The token is what stands in the line from its first byte to its last, and the scanner comes to
it outside quotes and escapes. -/
def Token.StandsIn (s : List Char) (t : Token) : Prop :=
  ∃ a b, s = a ++ t.text ++ b ∧ t.start = byteLength a ∧ t.stop = byteLength (a ++ t.text) ∧
    Mode.start.advanceAll a = .start

variable {s : List Char} {t : Token}

theorem Token.StandsIn.append (h : t.StandsIn s) (z : List Char) : t.StandsIn (s ++ z) := by
  obtain ⟨a, b, hs, hstart, hstop, hmode⟩ := h
  exact ⟨a, b ++ z, by rw [hs, List.append_assoc], hstart, hstop, hmode⟩

theorem Token.StandsIn.stop_le (h : t.StandsIn s) : t.stop ≤ byteLength s := by
  obtain ⟨a, b, rfl, -, hstop, -⟩ := h
  rw [hstop, byteLength_append (a ++ t.text) b]
  omega

theorem standsIn_of_mem_tokenize (ht : t ∈ tokenize s) : t.start < t.stop ∧ t.StandsIn s := by
  induction s using tokenize_induction with
  | blank s hs hnone =>
    rw [hnone] at ht
    cases ht
  | token a x b hmode hne hsealed hb htokens ih =>
    rw [htokens, List.mem_append, List.mem_singleton] at ht
    rcases ht with ht | rfl
    · rw [List.append_assoc]
      exact ⟨(ih ht).1, (ih ht).2.append (x ++ b)⟩
    · have hlen : byteLength x ≠ 0 := fun h => hne ((byteLength_eq_zero_iff x).1 h)
      refine ⟨?_, a, b, rfl, rfl, rfl, hmode⟩
      show byteLength a < byteLength (a ++ x)
      rw [byteLength_append]
      omega

/-- The tokens come one behind the other. -/
theorem pairwise_tokenize (s : List Char) :
    (tokenize s).Pairwise fun t u => t.stop ≤ u.start := by
  induction s using tokenize_induction with
  | blank s hs hnone => rw [hnone]; exact .nil
  | token a x b hmode hne hsealed hb htokens ih =>
    rw [htokens, List.pairwise_append]
    refine ⟨ih, List.pairwise_singleton _ _, fun t ht u hu => ?_⟩
    obtain rfl := List.mem_singleton.1 hu
    exact (standsIn_of_mem_tokenize ht).2.stop_le

/-! ## What stands between them -/

/-- Of two texts that begin the same line the one with fewer bytes begins the other. -/
theorem exists_append_of_byteLength_le {a b a' b' : List Char} (h : a ++ b = a' ++ b')
    (hle : byteLength a ≤ byteLength a') : ∃ m, a' = a ++ m ∧ b = m ++ b' := by
  rcases List.append_eq_append_iff.1 h with ⟨m, ha, hb⟩ | ⟨m, ha, hb⟩
  · exact ⟨m, ha, hb⟩
  · have hm : m = [] := by
      rw [ha, byteLength_append] at hle
      exact (byteLength_eq_zero_iff m).1 (by omega)
    subst hm
    exact ⟨[], by simpa using ha.symm, by simpa using hb.symm⟩

/-- A character that no token takes in is a blank. -/
theorem isBlank_of_outside {a b : List Char} {c : Char} (hs : s = a ++ c :: b)
    (hout : ∀ t ∈ tokenize s, byteLength a < t.start ∨ t.stop ≤ byteLength a) :
    isBlank c = true := by
  induction s using tokenize_induction generalizing a b with
  | blank s hblank hnone => exact hblank c (by rw [hs]; simp)
  | token a' x b' hmode hne hsealed hblank htokens ih =>
    rw [htokens] at hout
    have hlast : byteLength a < byteLength a' ∨ byteLength (a' ++ x) ≤ byteLength a :=
      hout ⟨x, byteLength a', byteLength (a' ++ x)⟩ (by simp)
    rcases hlast with hbefore | hbehind
    · rw [List.append_assoc] at hs
      obtain ⟨m, ha', hm⟩ := exists_append_of_byteLength_le hs.symm (Nat.le_of_lt hbefore)
      cases m with
      | nil =>
        rw [ha', List.append_nil] at hbefore
        exact absurd hbefore (Nat.lt_irrefl _)
      | cons d m =>
        obtain ⟨rfl, -⟩ := List.cons.inj hm
        exact ih ha' fun t ht => hout t (List.mem_append_left _ ht)
    · obtain ⟨m, -, hb'⟩ := exists_append_of_byteLength_le hs hbehind
      exact hblank c (by rw [hb']; simp)

/-- A line is its tokens, each behind its blanks, and the blanks at its end. -/
theorem tokenize_pieces (s : List Char) :
    ∃ (pieces : List (List Char × Token)) (after : List Char),
      tokenize s = pieces.map Prod.snd ∧ (∀ p ∈ pieces, allBlank p.1 = true) ∧
      allBlank after = true ∧ s = pieces.flatMap (fun p => p.1 ++ p.2.text) ++ after := by
  induction s using tokenize_induction with
  | blank s hs hnone =>
    exact ⟨[], s, hnone, fun p hp => (List.not_mem_nil hp).elim, List.all_eq_true.2 hs, rfl⟩
  | token a x b hmode hne hsealed hb htokens ih =>
    obtain ⟨pieces, after, hpieces, hblank, hafter, ha⟩ := ih
    refine ⟨pieces ++ [(after, ⟨x, byteLength a, byteLength (a ++ x)⟩)], b, ?_, ?_,
      List.all_eq_true.2 hb, ?_⟩
    · rw [htokens, hpieces, List.map_append]
      rfl
    · intro p hp
      rcases List.mem_append.1 hp with hp | hp
      · exact hblank p hp
      · obtain rfl := List.mem_singleton.1 hp
        exact hafter
    · rw [ha]
      simp

/-! ## A token by itself -/

theorem tokenize_token (ht : t ∈ tokenize s) :
    tokenize t.text = [⟨t.text, 0, byteLength t.text⟩] := by
  obtain ⟨hlt, a, b, -, hstart, hstop, -⟩ := standsIn_of_mem_tokenize ht
  refine tokenize_of_sealed (fun hnil => ?_) (sealed_of_mem_tokenize ht)
  rw [hstart, hstop, hnil, List.append_nil] at hlt
  exact Nat.lt_irrefl _ hlt

/-- **Cutting a line into tokens loses nothing and is stable.**  Every token is a text of at least
one byte that stands in the line where it says; the tokens come in order and apart; a character
outside all of them is a blank, and tokens and blanks together are the line; and the text of a token
is cut into that one token. -/
theorem tokenize_loses_nothing (s : List Char) :
    (∀ t ∈ tokenize s, t.start < t.stop ∧ t.StandsIn s) ∧
    ((tokenize s).Pairwise fun t u => t.stop ≤ u.start) ∧
    (∀ a c b, s = a ++ c :: b →
      (∀ t ∈ tokenize s, byteLength a < t.start ∨ t.stop ≤ byteLength a) → isBlank c = true) ∧
    (∃ (pieces : List (List Char × Token)) (after : List Char),
      tokenize s = pieces.map Prod.snd ∧ (∀ p ∈ pieces, allBlank p.1 = true) ∧
      allBlank after = true ∧ s = pieces.flatMap (fun p => p.1 ++ p.2.text) ++ after) ∧
    ∀ t ∈ tokenize s, tokenize t.text = [⟨t.text, 0, byteLength t.text⟩] :=
  ⟨fun _ => standsIn_of_mem_tokenize, pairwise_tokenize s, fun _ _ _ => isBlank_of_outside,
    tokenize_pieces s, fun _ => tokenize_token⟩

/-- Quotes, an escaped blank, a character of several bytes, and a backslash that nothing follows. -/
example : tokenize " 'a b'\\ é\t\\".toList =
    [⟨"'a b'\\ é".toList, 1, 10⟩, ⟨"\\".toList, 11, 12⟩] := by
  decide

end CommandShell.Line
