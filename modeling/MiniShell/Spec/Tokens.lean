import Mathlib.Data.List.TakeWhile
import MiniShell.Spec.Grammar

/-!
# Tokens and text

A rendering of a list of tokens is their texts with white space between them, where it is needed.
`tokenize_rendering` says that `tokenize` gives the tokens back, whatever the white space is, and `tokenize_sound`
that it gives nothing but well-formed tokens, and not too many of them.
-/

namespace MiniShell

/-! ### Renderings -/

/-- A word, as a line can hold it. -/
structure IsWord (text : Bytes) : Prop where
  ne_nil : text ≠ []
  length : text.length ≤ 255
  bytes : ∀ c ∈ text, c ≠ 0 ∧ isWordByte c = true

/-- A token with the text of its type. -/
def Token.WellFormed (token : Token) : Prop :=
  match token.type with
  | .word => IsWord token.text
  | .redirect op => token.text = op.text
  | .pipe => token.text = [verticalBar]
  | .background => token.text = [ampersand]

/-- White space has to stand between the two tokens. -/
def NeedsGap (token next : Token) : Prop :=
  token.type = .word ∧ next.type = .word ∨
    token.type = .redirect .output ∧ (next.type = .redirect .output ∨ next.type = .redirect .append)

def IsSpace (gap : Bytes) : Prop := ∀ c ∈ gap, isspace c = true

/-- The tokens, with white space behind each of them. -/
inductive Spaced : TokenList → Bytes → Prop where
  | nil : Spaced [] []
  | cons {token : Token} {gap : Bytes} {rest : TokenList} {text : Bytes} (hgap : IsSpace gap)
      (hsep : ∀ next ∈ rest.head?, NeedsGap token next → gap ≠ []) (hrest : Spaced rest text) :
      Spaced (token :: rest) (token.text ++ (gap ++ text))

/-- **A rendering of a list of tokens.** -/
def Rendering (list : TokenList) (line : Bytes) : Prop :=
  ∃ gap text, IsSpace gap ∧ Spaced list text ∧ line = gap ++ text

/-! ### One token -/

section

variable {token : Token} {text : Bytes}

theorem isWordByte_iff {c : UInt8} : isWordByte c = true ↔ isspace c = false ∧ isSpecial c = false := by
  simp [isWordByte]

/-- The first byte of a token is no white space, and it tells words from operators. -/
theorem Token.WellFormed.head (h : token.WellFormed) :
    ∃ c rest, token.text = c :: rest ∧ c ≠ 0 ∧ isspace c = false ∧
    (isWordByte c = true ↔ token.type = .word) ∧
    (c = greaterThan ↔ token.type = .redirect .output ∨ token.type = .redirect .append) := by
  unfold Token.WellFormed at h
  cases htype : token.type with
  | word =>
    rw [htype] at h
    obtain ⟨c, rest, hc⟩ := List.exists_cons_of_ne_nil h.ne_nil
    obtain ⟨h0, hw⟩ := h.bytes c (by simp [hc])
    have hg : c ≠ greaterThan := by
      rintro rfl
      exact absurd hw (by decide)
    exact ⟨c, rest, hc, h0, (isWordByte_iff.mp hw).1, by simp [hw], by simp [hg]⟩
  | redirect op =>
    rw [htype] at h
    cases op <;> exact ⟨_, _, h, by decide, by decide, by decide, by decide⟩
  | pipe =>
    rw [htype] at h
    exact ⟨_, _, h, by decide, by decide, by decide, by decide⟩
  | background =>
    rw [htype] at h
    exact ⟨_, _, h, by decide, by decide, by decide, by decide⟩

/-- What stands behind the token does not belong to it. -/
def Ends (token : Token) (text : Bytes) : Prop :=
  ∀ c ∈ text.head?, (token.type = .word → isWordByte c = false) ∧
    (token.type = .redirect .output → c ≠ greaterThan)

theorem takeWhile_word {w text : Bytes} (hw : ∀ c ∈ w, isWordByte c = true)
    (ht : ∀ c ∈ text.head?, isWordByte c = false) : (w ++ text).takeWhile isWordByte = w := by
  rw [List.takeWhile_append_of_pos hw]
  cases text with
  | nil => simp
  | cons c text => simp [ht c (by simp)]

/-- **The token is found at the start of the text.** -/
theorem scanToken_text (h : token.WellFormed) (he : Ends token text) :
    scanToken (token.text ++ text) = (token.type, token.text.length) := by
  unfold Token.WellFormed at h
  cases htype : token.type with
  | word =>
    rw [htype] at h
    have hw : ∀ c ∈ token.text, isWordByte c = true := fun c hc => (h.bytes c hc).2
    have htake := takeWhile_word hw fun c hc => (he c hc).1 htype
    obtain ⟨c, rest, hc⟩ := List.exists_cons_of_ne_nil h.ne_nil
    have hspecial : isSpecial c = false := (isWordByte_iff.mp (hw c (by simp [hc]))).2
    simp only [isSpecial, Bool.or_eq_false_iff, beq_eq_false_iff_ne, ne_eq] at hspecial
    obtain ⟨⟨⟨h1, h2⟩, h3⟩, h4⟩ := hspecial
    rw [hc] at htake ⊢
    simp only [scanToken, List.cons_append, h1, h2, h3, h4, if_false]
    rw [← List.cons_append, htake]
  | redirect op =>
    rw [htype] at h
    cases op with
    | input => simp [h, RedirectOp.text, scanToken, lessThan, greaterThan]
    | output =>
      have hne : text.head? ≠ some greaterThan := fun hh => (he greaterThan (by simp [hh])).2 htype rfl
      simp [h, RedirectOp.text, scanToken, hne]
    | append => simp [h, RedirectOp.text, scanToken]
  | pipe =>
    rw [htype] at h
    simp [h, scanToken, verticalBar, greaterThan, lessThan]
  | background =>
    rw [htype] at h
    simp [h, scanToken, ampersand, verticalBar, greaterThan, lessThan]

theorem Token.WellFormed.length_le (h : token.WellFormed) : token.text.length ≤ 255 := by
  unfold Token.WellFormed at h
  split at h
  · exact h.length
  · rename_i op _
    rw [h]
    cases op <;> decide
  · rw [h]
    decide
  · rw [h]
    decide

/-- A round of `tokenize` that finds the token. -/
theorem tokenizeLoop_token (h : token.WellFormed) (he : Ends token text) {gap : Bytes}
    (hgap : IsSpace gap) (n : ℕ) {list : TokenList} (hlen : list.length < MAX_TOKEN) :
    tokenizeLoop (n + 1) (gap ++ (token.text ++ text)) list = tokenizeLoop n text (list ++ [token]) := by
  obtain ⟨c, rest, hc, -, hspace, -, -⟩ := h.head
  have hdrop : (gap ++ (token.text ++ text)).dropWhile isspace = c :: (rest ++ text) := by
    rw [List.dropWhile_append_of_pos hgap, hc]
    simp [hspace]
  have htext : c :: (rest ++ text) = token.text ++ text := by simp [hc]
  have hlength := h.length_le
  have hpush : tokenPush list token.type token.text = .ok (list ++ [token]) := by
    unfold tokenPush
    rw [if_neg (by omega), if_neg (by rw [TOKEN_SIZE]; omega)]
  rw [tokenizeLoop, hdrop]
  simp only [htext, scanToken_text h he, List.take_left', List.drop_left', hpush]

end

/-! ### Rendered tokens -/

/-- The text begins with the first token. -/
theorem Spaced.head {list : TokenList} {text : Bytes} (h : Spaced list text)
    (hwf : ∀ token ∈ list, token.WellFormed) :
    ∀ c ∈ text.head?, ∃ next ∈ list.head?, (isWordByte c = true ↔ next.type = .word) ∧
      (c = greaterThan ↔ next.type = .redirect .output ∨ next.type = .redirect .append) := by
  intro c hc
  cases h with
  | nil => simp at hc
  | @cons token gap rest text hgap hsep hrest =>
    obtain ⟨c', tail, htext, -, -, hword, hgreater⟩ := (hwf token List.mem_cons_self).head
    obtain rfl : c' = c := by simpa [htext] using hc
    exact ⟨token, rfl, hword, hgreater⟩

/-- Where white space is needed it stands, and where it does not stand the next token ends the one before. -/
theorem Spaced.ends {token : Token} {gap : Bytes} {rest : TokenList} {text : Bytes} (hgap : IsSpace gap)
    (hsep : ∀ next ∈ rest.head?, NeedsGap token next → gap ≠ []) (hrest : Spaced rest text)
    (hwf : ∀ token ∈ rest, token.WellFormed) : Ends token (gap ++ text) := by
  intro c hc
  cases gap with
  | nil =>
    obtain ⟨next, hnext, hword, hgreater⟩ := hrest.head hwf c hc
    have hno : ¬ NeedsGap token next := fun hn => hsep next hnext hn rfl
    constructor
    · intro ht
      rw [← Bool.not_eq_true, hword]
      exact fun hn => hno (Or.inl ⟨ht, hn⟩)
    · intro ht hg
      exact hno (Or.inr ⟨ht, hgreater.mp hg⟩)
  | cons c' gap =>
    obtain rfl : c' = c := by simpa using hc
    have hspace := hgap c' List.mem_cons_self
    refine ⟨fun _ => by simp [isWordByte, hspace], fun _ => ?_⟩
    rintro rfl
    exact absurd hspace (by decide)

/-- The loop of `tokenize` on a rendering. -/
theorem tokenizeLoop_spaced {list : TokenList} {text : Bytes} (h : Spaced list text) :
    ∀ {gap : Bytes} {n : ℕ} {acc : TokenList}, (∀ token ∈ list, token.WellFormed) → IsSpace gap →
      acc.length + list.length ≤ MAX_TOKEN → list.length < n →
      tokenizeLoop n (gap ++ text) acc = .ok (acc ++ list) := by
  induction h with
  | nil =>
    intro gap n acc _ hgap _ hn
    obtain ⟨n, rfl⟩ : ∃ m, n = m + 1 := ⟨n - 1, by omega⟩
    have hdrop : (gap ++ []).dropWhile isspace = [] := by
      rw [List.dropWhile_append_of_pos hgap]
      rfl
    rw [tokenizeLoop, hdrop]
    simp
  | @cons token gap' rest text hgap' hsep hrest ih =>
    intro gap n acc hwf hgap hlen hn
    simp only [List.length_cons] at hlen hn
    obtain ⟨n, rfl⟩ : ∃ m, n = m + 1 := ⟨n - 1, by omega⟩
    have hwf' : ∀ token ∈ rest, token.WellFormed := fun t ht => hwf t (List.mem_cons_of_mem _ ht)
    have hends : Ends token (gap' ++ text) := Spaced.ends hgap' hsep hrest hwf'
    rw [tokenizeLoop_token (hwf token List.mem_cons_self) hends hgap n (by omega),
      ih hwf' hgap' (by simp only [List.length_append, List.length_singleton]; omega) (by omega)]
    simp

theorem isSpace_ne_zero {gap : Bytes} (h : IsSpace gap) : ∀ c ∈ gap, c ≠ 0 := by
  rintro c hc rfl
  exact absurd (h 0 hc) (by decide)

theorem Token.WellFormed.ne_zero {token : Token} (h : token.WellFormed) : ∀ c ∈ token.text, c ≠ 0 := by
  unfold Token.WellFormed at h
  split at h
  · exact fun c hc => (h.bytes c hc).1
  · rename_i op _
    rw [h]
    cases op <;> simp [RedirectOp.text, greaterThan, lessThan]
  · rw [h]
    simp [verticalBar]
  · rw [h]
    simp [ampersand]

theorem Spaced.ne_zero {list : TokenList} {text : Bytes} (h : Spaced list text)
    (hwf : ∀ token ∈ list, token.WellFormed) : ∀ c ∈ text, c ≠ 0 := by
  induction h with
  | nil => simp
  | @cons token gap rest text hgap hsep hrest ih =>
    intro c hc
    rcases List.mem_append.mp hc with hc | hc
    · exact (hwf token List.mem_cons_self).ne_zero c hc
    · rcases List.mem_append.mp hc with hc | hc
      · exact isSpace_ne_zero hgap c hc
      · exact ih (fun t ht => hwf t (List.mem_cons_of_mem _ ht)) c hc

theorem Spaced.length_le {list : TokenList} {text : Bytes} (h : Spaced list text)
    (hwf : ∀ token ∈ list, token.WellFormed) : list.length ≤ text.length := by
  induction h with
  | nil => simp
  | @cons token gap rest text hgap hsep hrest ih =>
    have := ih fun t ht => hwf t (List.mem_cons_of_mem _ ht)
    obtain ⟨c, tail, htext, -⟩ := (hwf token List.mem_cons_self).head
    simp only [List.length_cons, List.length_append, htext]
    omega

theorem cString_clean {line : Bytes} (h : ∀ c ∈ line, c ≠ 0) : cString line = line :=
  List.takeWhile_eq_self_iff.mpr (by simpa using h)

theorem cString_ne_zero (buffer : Bytes) : ∀ c ∈ cString buffer, c ≠ 0 := by
  intro c hc
  simpa using List.mem_takeWhile_imp hc

/-- **A rendering is read back.** -/
theorem tokenize_rendering {list : TokenList} {line : Bytes} (h : Rendering list line)
    (hwf : ∀ token ∈ list, token.WellFormed) (hlen : list.length ≤ MAX_TOKEN) :
    tokenize (some line) = .ok list := by
  obtain ⟨gap, text, hgap, hspaced, rfl⟩ := h
  have hclean : cString (gap ++ text) = gap ++ text := by
    apply cString_clean
    intro c hc
    rcases List.mem_append.mp hc with hc | hc
    · exact isSpace_ne_zero hgap c hc
    · exact hspaced.ne_zero hwf c hc
  have hle := hspaced.length_le hwf
  simp only [tokenize, hclean]
  rw [tokenizeLoop_spaced hspaced hwf hgap (by simpa using hlen) (by simp only [List.length_append]; omega)]
  rfl

/-! ### What `tokenize` returns -/

/-- The token found at the start of a text is well formed, if it is not too long. -/
theorem scanToken_wellFormed {c : UInt8} {rest : Bytes} (h0 : ∀ x ∈ c :: rest, x ≠ 0)
    (hspace : isspace c = false) (hlen : ((c :: rest).take (scanToken (c :: rest)).2).length < TOKEN_SIZE) :
    Token.WellFormed ⟨(c :: rest).take (scanToken (c :: rest)).2, (scanToken (c :: rest)).1⟩ := by
  by_cases hspecial : isSpecial c = true
  · simp only [isSpecial, Bool.or_eq_true, beq_iff_eq] at hspecial
    rcases hspecial with ((rfl | rfl) | rfl) | rfl
    · by_cases happend : rest.head? = some greaterThan
      · obtain ⟨rest, rfl⟩ := List.head?_eq_some_iff.mp happend
        rfl
      · simp only [scanToken, happend, if_true, if_false]
        rfl
    · rfl
    · rfl
    · rfl
  · have hword : isWordByte c = true := isWordByte_iff.mpr ⟨hspace, by simpa using hspecial⟩
    simp only [isSpecial, Bool.or_eq_true, beq_iff_eq, not_or] at hspecial
    obtain ⟨⟨⟨h1, h2⟩, h3⟩, h4⟩ := hspecial
    simp only [scanToken, h1, h2, h3, h4, if_false] at *
    rw [← List.prefix_iff_eq_take.mp (List.takeWhile_prefix _)] at *
    refine ⟨by simp [hword], Nat.lt_succ_iff.mp hlen, fun x hx => ⟨?_, List.mem_takeWhile_imp hx⟩⟩
    exact h0 x ((List.takeWhile_prefix _).subset hx)

theorem dropWhile_head {p : UInt8 → Bool} {l rest : Bytes} {c : UInt8} (h : l.dropWhile p = c :: rest) :
    p c = false := by
  have := List.head?_dropWhile_not p l
  rw [h] at this
  simpa using this

/-- Where a text starts behind what it begins with. -/
theorem takeWhile_drop (p : UInt8 → Bool) (l : Bytes) : l.drop (l.takeWhile p).length = l.dropWhile p := by
  have h : (l.takeWhile p ++ l.dropWhile p).drop (l.takeWhile p).length = l.dropWhile p := List.drop_left' rfl
  rwa [List.takeWhile_append_dropWhile] at h

/-- **The loop of `tokenize` finds well-formed tokens**, and at most 128 of them. -/
theorem tokenizeLoop_sound (n : ℕ) : ∀ {p : Bytes} {acc list : TokenList}, (∀ c ∈ p, c ≠ 0) →
    (∀ token ∈ acc, token.WellFormed) → acc.length ≤ MAX_TOKEN → tokenizeLoop n p acc = .ok list →
    (∀ token ∈ list, token.WellFormed) ∧ list.length ≤ MAX_TOKEN := by
  induction n with
  | zero =>
    intro p acc list _ hwf hlen h
    cases h
    exact ⟨hwf, hlen⟩
  | succ n ih =>
    intro p acc list h0 hwf hlen h
    rw [tokenizeLoop] at h
    split at h
    · cases h
      exact ⟨hwf, hlen⟩
    · rename_i c rest hdrop
      have h0' : ∀ x ∈ c :: rest, x ≠ 0 := fun x hx => h0 x ((List.dropWhile_sublist _).subset (hdrop ▸ hx))
      dsimp only at h
      split at h
      · cases h
      · rename_i acc' hpush
        unfold tokenPush at hpush
        split at hpush
        · cases hpush
        · split at hpush
          · cases hpush
          · rename_i hmax hsize
            cases hpush
            refine ih (fun x hx => h0' x (List.mem_of_mem_drop hx)) (fun token ht => ?_) ?_ h
            · rcases List.mem_append.mp ht with ht | ht
              · exact hwf token ht
              · rw [List.mem_singleton.mp ht]
                exact scanToken_wellFormed h0' (dropWhile_head hdrop) (by omega)
            · simp only [List.length_append, List.length_singleton]
              omega

/-- **`tokenize` returns well-formed tokens**, and at most 128 of them. -/
theorem tokenize_sound {line : Bytes} {list : TokenList} (h : tokenize (some line) = .ok list) :
    (∀ token ∈ list, token.WellFormed) ∧ list.length ≤ MAX_TOKEN :=
  tokenizeLoop_sound _ (cString_ne_zero line) (by simp) (by simp) h

end MiniShell
