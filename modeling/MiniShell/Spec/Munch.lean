import MiniShell.Spec.Tokens

/-!
# Maximal munch

`Munch text list` — by the rule of the longest match, and without any limits, the tokens of the text are `list`.
`munch_exists` and `munch_unique` say that every text has exactly one such list, `munch_text` that nothing of the
text but its white space is lost, and `tokenize_munch` that `tokenize` returns this list or the limit it breaks.
-/

namespace MiniShell

/-- **The tokens of a text**: white space separates them, `'>>'` goes before `'>'`, and a word is as long as can be. -/
inductive Munch : Bytes → TokenList → Prop where
  | nil : Munch [] []
  | space {c : UInt8} {text : Bytes} {list : TokenList} (hc : isspace c = true) (h : Munch text list) :
      Munch (c :: text) list
  | append {text : Bytes} {list : TokenList} (h : Munch text list) :
      Munch (greaterThan :: greaterThan :: text) (⟨[greaterThan, greaterThan], .redirect .append⟩ :: list)
  | output {text : Bytes} {list : TokenList} (hne : text.head? ≠ some greaterThan) (h : Munch text list) :
      Munch (greaterThan :: text) (⟨[greaterThan], .redirect .output⟩ :: list)
  | input {text : Bytes} {list : TokenList} (h : Munch text list) :
      Munch (lessThan :: text) (⟨[lessThan], .redirect .input⟩ :: list)
  | pipe {text : Bytes} {list : TokenList} (h : Munch text list) :
      Munch (verticalBar :: text) (⟨[verticalBar], .pipe⟩ :: list)
  | background {text : Bytes} {list : TokenList} (h : Munch text list) :
      Munch (ampersand :: text) (⟨[ampersand], .background⟩ :: list)
  | word {w text : Bytes} {list : TokenList} (hne : w ≠ []) (hw : ∀ c ∈ w, isWordByte c = true)
      (hmax : ∀ c ∈ text.head?, isWordByte c = false) (h : Munch text list) :
      Munch (w ++ text) (⟨w, .word⟩ :: list)

/-! ### One token -/

section

variable {c : UInt8} {rest text : Bytes} {list : TokenList}

/-- A byte that is neither white space nor special begins a word. -/
theorem scanToken_word (hc : isWordByte c = true) :
    scanToken (c :: rest) = (.word, ((c :: rest).takeWhile isWordByte).length) := by
  have hspecial := (isWordByte_iff.mp hc).2
  simp only [isSpecial, Bool.or_eq_false_iff, beq_eq_false_iff_ne, ne_eq] at hspecial
  obtain ⟨⟨⟨h1, h2⟩, h3⟩, h4⟩ := hspecial
  simp only [scanToken, h1, h2, h3, h4, if_false]

/-- `tokenize` takes at least one byte. -/
theorem scanToken_pos (hspace : isspace c = false) : 1 ≤ (scanToken (c :: rest)).2 := by
  by_cases hword : isWordByte c = true
  · rw [scanToken_word hword]
    simp [hword]
  · have hspecial : isSpecial c = true := by
      by_contra hs
      exact hword (isWordByte_iff.mpr ⟨hspace, by simpa using hs⟩)
    simp only [isSpecial, Bool.or_eq_true, beq_iff_eq] at hspecial
    rcases hspecial with ((rfl | rfl) | rfl) | rfl
    · simp only [scanToken, if_true]
      split <;> omega
    all_goals exact le_rfl

/-- What is left behind the token is shorter. -/
theorem scanToken_drop {p : Bytes} (hdrop : p.dropWhile isspace = c :: rest) :
    ((c :: rest).drop (scanToken (c :: rest)).2).length < p.length := by
  have hlen : (c :: rest).length ≤ p.length := hdrop ▸ (List.dropWhile_sublist _).length_le
  have hpos := @scanToken_pos c rest (dropWhile_head hdrop)
  rw [List.length_drop]
  simp only [List.length_cons] at hlen ⊢
  omega

/-- Where the word at the start of a text ends. -/
theorem takeWhile_split (p : Bytes) : p.take (p.takeWhile isWordByte).length = p.takeWhile isWordByte ∧
    p.drop (p.takeWhile isWordByte).length = p.dropWhile isWordByte :=
  ⟨(List.prefix_iff_eq_take.mp (List.takeWhile_prefix _)).symm, takeWhile_drop isWordByte p⟩

/-- The token `tokenize` takes is the first one. -/
theorem Munch.scan (hspace : isspace c = false) (h : Munch ((c :: rest).drop (scanToken (c :: rest)).2) list) :
    Munch (c :: rest) (⟨(c :: rest).take (scanToken (c :: rest)).2, (scanToken (c :: rest)).1⟩ :: list) := by
  by_cases hword : isWordByte c = true
  · obtain ⟨htake, hdrop⟩ := takeWhile_split (c :: rest)
    rw [scanToken_word hword] at h ⊢
    dsimp only at h ⊢
    rw [hdrop] at h
    rw [htake]
    have hmunch : Munch ((c :: rest).takeWhile isWordByte ++ (c :: rest).dropWhile isWordByte)
        (⟨(c :: rest).takeWhile isWordByte, .word⟩ :: list) := by
      refine .word (by simp [hword]) (fun x hx => List.mem_takeWhile_imp hx) ?_ h
      intro x hx
      have := List.head?_dropWhile_not isWordByte (c :: rest)
      rw [Option.mem_def.mp hx] at this
      simpa using this
    rwa [List.takeWhile_append_dropWhile] at hmunch
  · have hspecial : isSpecial c = true := by
      by_contra hs
      exact hword (isWordByte_iff.mpr ⟨hspace, by simpa using hs⟩)
    simp only [isSpecial, Bool.or_eq_true, beq_iff_eq] at hspecial
    rcases hspecial with ((rfl | rfl) | rfl) | rfl
    · by_cases happend : rest.head? = some greaterThan
      · obtain ⟨rest, rfl⟩ := List.head?_eq_some_iff.mp happend
        exact .append h
      · simp only [scanToken, happend, if_true, if_false] at h ⊢
        exact .output happend h
    · exact .input h
    · exact .pipe h
    · exact .background h

/-- The first token is the one `tokenize` takes. -/
theorem Munch.scanned (hspace : isspace c = false) (h : Munch (c :: rest) list) :
    ∃ others, list = ⟨(c :: rest).take (scanToken (c :: rest)).2, (scanToken (c :: rest)).1⟩ :: others ∧
      Munch ((c :: rest).drop (scanToken (c :: rest)).2) others := by
  generalize htext : c :: rest = p at h
  cases h with
  | nil => cases htext
  | space hc h =>
    cases htext
    rw [hspace] at hc
    cases hc
  | append h => exact ⟨_, rfl, h⟩
  | output hne h =>
    cases htext
    simp only [scanToken, hne, if_true, if_false]
    exact ⟨_, rfl, h⟩
  | input h => exact ⟨_, rfl, h⟩
  | pipe h => exact ⟨_, rfl, h⟩
  | background h => exact ⟨_, rfl, h⟩
  | @word w text list hne hw hmax h =>
    have hword : isWordByte c = true := by
      cases w with
      | nil => exact absurd rfl hne
      | cons d w =>
        cases htext
        exact hw _ List.mem_cons_self
    obtain ⟨htake, hdrop⟩ := takeWhile_split (w ++ text)
    have hscan := @scanToken_word c rest hword
    rw [htext] at hscan
    rw [hscan]
    dsimp only
    have hrest : (w ++ text).dropWhile isWordByte = text := by
      rw [List.dropWhile_append_of_pos hw]
      cases text with
      | nil => rfl
      | cons d text => exact List.dropWhile_cons_of_neg (by simp [hmax d rfl])
    rw [htake, hdrop, takeWhile_word hw hmax, hrest]
    exact ⟨list, rfl, h⟩

/-- White space at the start does not matter. -/
theorem munch_dropWhile : ∀ {p : Bytes}, Munch (p.dropWhile isspace) list ↔ Munch p list
  | [] => Iff.rfl
  | c :: p => by
    by_cases hc : isspace c = true
    · rw [List.dropWhile_cons_of_pos hc, munch_dropWhile]
      refine ⟨.space hc, fun h => ?_⟩
      generalize htext : c :: p = q at h
      cases h with
      | space _ h =>
        cases htext
        exact h
      | word hne hw =>
        rename_i w _ _ _ _
        cases w with
        | nil => exact absurd rfl hne
        | cons d w =>
          cases htext
          have := (isWordByte_iff.mp (hw _ List.mem_cons_self)).1
          rw [hc] at this
          cases this
      | nil => cases htext
      | _ =>
        cases htext
        exact absurd hc (by decide)
    · rw [List.dropWhile_cons_of_neg hc]

end

/-! ### Every text has its tokens -/

theorem munch_exists (p : Bytes) : ∃ list, Munch p list := by
  induction hn : p.length using Nat.strong_induction_on generalizing p with
  | _ n ih =>
    cases hdrop : p.dropWhile isspace with
    | nil => exact ⟨[], munch_dropWhile.mp (hdrop ▸ .nil)⟩
    | cons c rest =>
      obtain ⟨list, h⟩ := ih _ (hn ▸ scanToken_drop hdrop) ((c :: rest).drop (scanToken (c :: rest)).2) rfl
      exact ⟨_, munch_dropWhile.mp (hdrop ▸ h.scan (dropWhile_head hdrop))⟩

theorem munch_unique {p : Bytes} {list : TokenList} (h : Munch p list) :
    ∀ {list' : TokenList}, Munch p list' → list' = list := by
  induction hn : p.length using Nat.strong_induction_on generalizing p list with
  | _ n ih =>
    intro list' h'
    rw [← munch_dropWhile] at h h'
    cases hdrop : p.dropWhile isspace with
    | nil =>
      rw [hdrop] at h h'
      have nil_of : ∀ {l : TokenList}, Munch [] l → l = [] := by
        intro l hl
        generalize hp : ([] : Bytes) = q at hl
        cases hl with
        | nil => rfl
        | word hne => simp [hne] at hp
        | _ => cases hp
      rw [nil_of h, nil_of h']
    | cons c rest =>
      have hspace := dropWhile_head hdrop
      rw [hdrop] at h h'
      obtain ⟨others, rfl, hothers⟩ := h.scanned hspace
      obtain ⟨others', rfl, hothers'⟩ := h'.scanned hspace
      have hlt := scanToken_drop hdrop
      rw [hn] at hlt
      have hsame := ih _ hlt hothers rfl hothers'
      rw [hsame]

/-- No token is empty, and the texts of the tokens are the text without its white space. -/
theorem munch_text {p : Bytes} {list : TokenList} (h : Munch p list) :
    list.flatMap Token.text = p.filter (fun c => !isspace c) ∧ ∀ token ∈ list, token.text ≠ [] := by
  induction h with
  | nil => simp
  | space hc _ ih =>
    rw [List.filter_cons_of_neg (by simp [hc])]
    exact ih
  | @word w text list hne hw _ _ ih =>
    have hkeep : w.filter (fun c => !isspace c) = w :=
      List.filter_eq_self.mpr fun c hc => by simp [(isWordByte_iff.mp (hw c hc)).1]
    simp only [List.flatMap_cons, List.filter_append, hkeep, ih.1]
    exact ⟨trivial, List.forall_mem_cons.mpr ⟨hne, ih.2⟩⟩
  | _ =>
    rename_i ih
    simp only [List.flatMap_cons, ih.1]
    exact ⟨rfl, List.forall_mem_cons.mpr ⟨by simp, ih.2⟩⟩

/-! ### The loop of `tokenize` -/

/-- The tokens with the limits applied, when `k` more tokens fit. -/
def limited (k : ℕ) (list : TokenList) : Except TokenizeError TokenList :=
  if ∃ token ∈ list.take k, TOKEN_SIZE ≤ token.text.length then .error .tooLong
  else if k < list.length then .error .tooMany
  else .ok list

/-- **The loop of `tokenize` finds the tokens of the text.** -/
theorem tokenizeLoop_munch (n : ℕ) :
    ∀ {p : Bytes} {acc list : TokenList}, p.length < n → acc.length ≤ MAX_TOKEN →
    Munch p list → tokenizeLoop n p acc = (limited (MAX_TOKEN - acc.length) list).map (acc ++ ·) := by
  induction n with
  | zero => intro p acc list hn; omega
  | succ n ih =>
    intro p acc list hn hacc h
    rw [← munch_dropWhile] at h
    rw [tokenizeLoop]
    cases hdrop : p.dropWhile isspace with
    | nil =>
      obtain rfl : list = [] := munch_unique .nil (hdrop ▸ h)
      simp [limited, Except.map]
    | cons c rest =>
      have hshorter := scanToken_drop hdrop
      rw [hdrop] at h
      obtain ⟨others, rfl, hothers⟩ := h.scanned (dropWhile_head hdrop)
      dsimp only
      generalize (c :: rest).take (scanToken (c :: rest)).2 = text
      unfold tokenPush
      by_cases hmany : MAX_TOKEN ≤ acc.length
      · have hzero : MAX_TOKEN - acc.length = 0 := by omega
        simp [hmany, hzero, limited, Except.map]
      · obtain ⟨k, hk⟩ : ∃ k, MAX_TOKEN - acc.length = k + 1 := ⟨MAX_TOKEN - acc.length - 1, by omega⟩
        by_cases hlong : TOKEN_SIZE ≤ text.length
        · simp [hmany, hlong, hk, limited, Except.map]
        · rw [if_neg hmany, if_neg hlong]
          dsimp only
          have hroom : (acc ++ [(⟨text, (scanToken (c :: rest)).1⟩ : Token)]).length = acc.length + 1 := by simp
          have hk' : MAX_TOKEN - (acc ++ [(⟨text, (scanToken (c :: rest)).1⟩ : Token)]).length = k := by omega
          rw [ih (by omega) (by omega) hothers]
          rw [hk, hk']
          unfold limited
          simp only [List.take_succ_cons, List.exists_mem_cons_iff, hlong, false_or, List.length_cons,
            Nat.add_lt_add_iff_right]
          split
          · rfl
          · split <;> simp [Except.map]

/-- **`tokenize` is maximal munch with exact limits.**  The string of a line has exactly one list of tokens, whose
texts are the string without its white space.  `tokenize` returns this list if and only if it has at most 128
tokens, each shorter than 256 bytes; it returns `TOKENIZE_TOO_LONG` if and only if one of the first 128 tokens is not
shorter, and in all other cases `TOKENIZE_TOO_MANY`. -/
theorem tokenize_munch (line : Bytes) : ∃ list, Munch (cString line) list ∧
    (∀ list', Munch (cString line) list' → list' = list) ∧
    list.flatMap Token.text = (cString line).filter (fun c => !isspace c) ∧
    (∀ token ∈ list, token.text ≠ []) ∧
    (∀ result, tokenize (some line) = .ok result ↔
      result = list ∧ list.length ≤ 128 ∧ ∀ token ∈ list, token.text.length < 256) ∧
    (tokenize (some line) = .error .tooLong ↔ ∃ token ∈ list.take 128, 256 ≤ token.text.length) ∧
    (tokenize (some line) = .error .tooMany ↔
      (∀ token ∈ list.take 128, token.text.length < 256) ∧ 128 < list.length) := by
  obtain ⟨list, h⟩ := munch_exists (cString line)
  obtain ⟨htext, hne⟩ := munch_text h
  have hrun : tokenize (some line) = limited 128 list := by
    have hloop : tokenizeLoop ((cString line).length + 1) (cString line) [] = (limited 128 list).map ([] ++ ·) :=
      tokenizeLoop_munch _ (Nat.lt_succ_self _) (Nat.zero_le _) h
    unfold tokenize
    dsimp only
    rw [hloop]
    cases limited 128 list <;> rfl
  refine ⟨list, h, fun _ h' => munch_unique h h', htext, hne, ?_⟩
  rw [hrun]
  unfold limited
  rw [show TOKEN_SIZE = 256 from rfl]
  by_cases hlong : ∃ token ∈ list.take 128, 256 ≤ token.text.length
  · rw [if_pos hlong]
    obtain ⟨token, ht, hl⟩ := hlong
    refine ⟨fun result => ⟨nofun, fun hok => ?_⟩, ⟨fun _ => ⟨token, ht, hl⟩, fun _ => rfl⟩,
      nofun, fun hmany => ?_⟩
    · have := hok.2.2 token (List.mem_of_mem_take ht)
      omega
    · have := hmany.1 token ht
      omega
  · have hshort : ∀ token ∈ list.take 128, token.text.length < 256 := by
      intro token ht
      by_contra hl
      exact hlong ⟨token, ht, by omega⟩
    rw [if_neg hlong]
    by_cases hmany : 128 < list.length
    · rw [if_pos hmany]
      refine ⟨fun result => ⟨nofun, fun hok => ?_⟩, ⟨nofun, fun hl => absurd hl hlong⟩,
        fun _ => ⟨hshort, hmany⟩,
        fun _ => rfl⟩
      omega
    · rw [if_neg hmany]
      rw [List.take_of_length_le (by omega)] at hshort
      refine ⟨fun result => ⟨fun hok => ?_, fun hok => by rw [hok.1]⟩,
        ⟨nofun, fun hl => absurd hl hlong⟩, nofun,
        fun hm => absurd hm.2 hmany⟩
      cases hok
      exact ⟨rfl, by omega, hshort⟩

end MiniShell
