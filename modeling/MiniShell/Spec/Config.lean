import MiniShell.Model.Config
import MiniShell.Spec.Tokens

/-!
# The configuration language

A line of a configuration file sets one field, `Sets line setting`, or is one of the lines that say nothing.
`configParseLine_spec` says that `config_parse_line` accepts exactly these lines and does what they say, and
`trimSpace_text` that the trimming inside the one buffer amounts to trimming texts.
-/

namespace MiniShell

open MiniShell.Lib MiniShellError

/-! ### Trimming in a buffer -/

/-- A text without the white space around it. -/
def trim (text : Bytes) : Bytes := (text.dropWhile isspace).rdropWhile isspace

section

variable {buffer l x : Bytes} {i j : ℕ}

theorem cString_eq_self {line : Bytes} (h0 : 0 ∉ line) : cString line = line := by
  apply List.takeWhile_eq_self_iff.mpr
  intro c hc
  rw [decide_eq_true_eq]
  rintro rfl
  exact h0 hc

theorem cString_cut (l : Bytes) (m : ℕ) : cString (l.set m 0) = (cString l).take m := by
  unfold cString
  induction l generalizing m with
  | nil => simp
  | cons c l ih =>
    cases m with
    | zero => simp
    | succ m =>
      rw [List.set_cons_succ, List.takeWhile_cons, List.takeWhile_cons]
      split
      · rw [ih, List.take_succ_cons]
      · rfl

theorem cString_drop (l : Bytes) {m : ℕ} (hm : m ≤ (cString l).length) :
    cString (l.drop m) = (cString l).drop m := by
  unfold cString at *
  induction l generalizing m with
  | nil => simp
  | cons c l ih =>
    cases m with
    | zero => rfl
    | succ m =>
      rw [List.takeWhile_cons] at hm ⊢
      split at hm
      · rename_i hc
        rw [if_pos hc, List.drop_succ_cons, List.drop_succ_cons]
        exact ih (by simpa using hm)
      · simp at hm

/-- A `'\0'` before a string does not matter. -/
theorem strAt_set_before (h : j < i) : strAt (buffer.set j 0) i = strAt buffer i := by
  unfold strAt
  rw [List.drop_set, if_pos h]

/-- A `'\0'` stored in or behind a string cuts it there. -/
theorem strAt_set_cut (h : i ≤ j) : strAt (buffer.set j 0) i = (strAt buffer i).take (j - i) := by
  unfold strAt
  rw [List.drop_set, if_neg (by omega), cString_cut]

theorem strAt_add {m : ℕ} (hm : m ≤ (strAt buffer i).length) :
    strAt buffer (i + m) = (strAt buffer i).drop m := by
  unfold strAt at *
  rw [← List.drop_drop, cString_drop _ hm]

theorem takeWhile_trim_length (text : Bytes) :
    (text.takeWhile isspace).length + (trim text).length ≤ text.length := by
  have h1 : (text.takeWhile isspace ++ text.dropWhile isspace).length = text.length := by
    rw [List.takeWhile_append_dropWhile]
  have h2 := (List.rdropWhile_prefix isspace (text.dropWhile isspace)).length_le
  rw [List.length_append] at h1
  unfold trim
  omega

/-- What `trim_space` does to the buffer. -/
theorem trimSpace_eq (buffer : Bytes) (i : ℕ) : trimSpace buffer i =
    (i + ((strAt buffer i).takeWhile isspace).length,
      buffer.set (i + ((strAt buffer i).takeWhile isspace).length + (trim (strAt buffer i)).length) 0) := by
  unfold trimSpace trim
  dsimp only
  rw [strAt_add (List.takeWhile_prefix _).length_le, takeWhile_drop]

/-- **The text `trim_space` returns is the trimmed text.** -/
theorem trimSpace_text (buffer : Bytes) (i : ℕ) :
    strAt (trimSpace buffer i).2 (trimSpace buffer i).1 = trim (strAt buffer i) := by
  rw [trimSpace_eq]
  dsimp only
  rw [strAt_set_cut (by omega), strAt_add (List.takeWhile_prefix _).length_le, takeWhile_drop,
    Nat.add_sub_cancel_left]
  exact (List.prefix_iff_eq_take.mp (List.rdropWhile_prefix _ _)).symm

/-- Trimming leaves the strings behind the text alone. -/
theorem trimSpace_behind (h : i + (strAt buffer i).length < j) :
    strAt (trimSpace buffer i).2 j = strAt buffer j := by
  have hle := takeWhile_trim_length (strAt buffer i)
  rw [trimSpace_eq]
  exact strAt_set_before (by omega)

/-- Trimming leaves the strings before the text alone. -/
theorem trimSpace_before (h : j + (strAt buffer j).length < i) :
    strAt (trimSpace buffer i).2 j = strAt buffer j := by
  rw [trimSpace_eq]
  dsimp only
  rw [strAt_set_cut (by omega), List.take_of_length_le (by omega)]

/-- A text without white space around it. -/
structure Trimmed (x : Bytes) : Prop where
  head : ∀ c ∈ x.head?, isspace c = false
  last : ∀ c ∈ x.getLast?, isspace c = false

theorem rdropWhile_spaces {a d : Bytes} (hd : IsSpace d) (ha : ∀ c ∈ a.getLast?, isspace c = false) :
    (a ++ d).rdropWhile isspace = a := by
  induction d using List.reverseRecOn with
  | nil =>
    rw [List.append_nil, List.rdropWhile_eq_self_iff]
    intro hne hlast
    rw [ha _ (List.getLast?_eq_some_getLast hne)] at hlast
    cases hlast
  | append_singleton d c ih =>
    rw [← List.append_assoc, List.rdropWhile_concat_pos _ _ _ (hd c (by simp))]
    exact ih fun c hc => hd c (by simp [hc])

theorem trim_spaces {a d : Bytes} (ha : IsSpace a) (hx : Trimmed x) (hd : IsSpace d) :
    trim (a ++ (x ++ d)) = x := by
  unfold trim
  rw [List.dropWhile_append_of_pos ha]
  cases x with
  | nil => simp [List.dropWhile_eq_nil_iff.mpr hd]
  | cons c x =>
    rw [List.cons_append, List.dropWhile_cons_of_neg (by simp [hx.head c rfl]), ← List.cons_append]
    exact rdropWhile_spaces hd hx.last

theorem trim_concat_space {c : UInt8} (hc : isspace c = true) (l : Bytes) : trim (l ++ [c]) = trim l := by
  unfold trim
  rw [List.dropWhile_append]
  split
  · rename_i hnil
    rw [List.isEmpty_iff.mp hnil]
    simp [hc]
  · exact List.rdropWhile_concat_pos _ _ _ hc

end

/-! ### What a line says -/

/-- One field and its new value. -/
inductive Setting where
  | prompts (text : Bytes)
  | maxJob (n : ℕ)
  | debug (on : Bool)
  deriving DecidableEq

/-- The key a setting is written with. -/
def Setting.key : Setting → Bytes
  | prompts _ => promptsKey
  | maxJob _ => maxJobKey
  | debug _ => debugKey

def Setting.apply (configs : MiniShellConfig) : Setting → MiniShellConfig
  | prompts text => { configs with prompts := text }
  | maxJob n => { configs with maxJob := n }
  | debug on => { configs with debug := if on then 1 else 0 }

/-- The text is a number: an optional `'+'` and decimal digits. -/
def Decimal (text : Bytes) (n : ℕ) : Prop :=
  ∃ sign digits, text = sign ++ digits ∧ (sign = [] ∨ sign = [43]) ∧ digits ≠ [] ∧
    (∀ c ∈ digits, Strtol.isDigit c = true) ∧ Strtol.digitsValue digits = n

/-- The key and the value set a field. -/
def Assigns (key value : Bytes) : Setting → Prop
  | .prompts text => key = promptsKey ∧ value = text ∧ 1 ≤ text.length ∧ text.length ≤ 63
  | .maxJob n => key = maxJobKey ∧ Decimal value n ∧ 1 ≤ n ∧ n ≤ INT_MAX
  | .debug on => key = debugKey ∧ value = if on then [49] else [48]

/-- The line is empty or a comment. -/
def Ignored (line : Bytes) : Prop := trim line = [] ∨ (trim line).head? = some 35

/-- **The line sets a field**: it is `key = value`, split at its first `'='`. -/
def Sets (line : Bytes) (setting : Setting) : Prop :=
  ∃ key value, trim line = key ++ 61 :: value ∧ 61 ∉ key ∧ Assigns (trim key) (trim value) setting

section

variable {key value line : Bytes} {setting : Setting} {configs : MiniShellConfig}

theorem keys_distinct : promptsKey ≠ [] ∧ maxJobKey ≠ [] ∧ debugKey ≠ [] ∧ maxJobKey ≠ promptsKey ∧
    debugKey ≠ promptsKey ∧ debugKey ≠ maxJobKey := by decide

/-- What `config_parse_line` wants of the value of `max_job`, which has no white space before it. -/
theorem number_iff {n : ℕ} (hhead : ∀ c ∈ value.head?, isspace c = false) :
    ((Strtol.strtol isspace 64 value).fails = false ∧ 0 < (Strtol.strtol isspace 64 value).value ∧
      (Strtol.strtol isspace 64 value).value ≤ INT_MAX ∧ (Strtol.strtol isspace 64 value).value = n) ↔
    Decimal value n ∧ 1 ≤ n ∧ n ≤ INT_MAX := by
  have hmax : (INT_MAX : Int) = 2147483647 := rfl
  have hmax' : INT_MAX = 2147483647 := rfl
  constructor
  · rintro ⟨hok, hpos, hle, hn⟩
    obtain ⟨x, hx, -, -, hv⟩ := (Strtol.strtol_accepts isspace_apart).mp (Strtol.Conversion.fails_iff.mp hok)
    rw [hv] at hpos hle hn
    refine ⟨?_, by omega, by omega⟩
    have no_blanks : ∀ {blanks t : Bytes}, (∀ c ∈ blanks, isspace c = true) → value = blanks ++ t →
        blanks = [] := by
      rintro (_ | ⟨c, blanks⟩) t hb rfl
      · rfl
      · have hc := hhead c rfl
        rw [hb c List.mem_cons_self] at hc
        cases hc
    cases hx with
    | @plain blanks digits hb hne hd =>
      obtain rfl := no_blanks hb rfl
      refine ⟨[], digits, rfl, Or.inl rfl, hne, hd, ?_⟩
      simpa [Strtol.Numeral.value, Strtol.Numeral.magnitude] using hn
    | @plus blanks digits hb hne hd =>
      obtain rfl := no_blanks hb rfl
      refine ⟨[43], digits, rfl, Or.inr rfl, hne, hd, ?_⟩
      simpa [Strtol.Numeral.value, Strtol.Numeral.magnitude] using hn
    | @minus blanks digits hb hne hd =>
      simp only [Strtol.Numeral.value, if_true] at hpos
      omega
  · rintro ⟨⟨sign, digits, rfl, hs, hne, hd, rfl⟩, hpos, hle⟩
    have hx : Strtol.Denotes isspace (sign ++ digits) ⟨false, digits⟩ := by
      rcases hs with rfl | rfl
      · exact @Strtol.Denotes.plain isspace [] digits (by simp) hne hd
      · exact @Strtol.Denotes.plus isspace [] digits (by simp) hne hd
    have hv : (⟨false, digits⟩ : Strtol.Numeral).value = (Strtol.digitsValue digits : Int) := rfl
    have hconv := (@Strtol.strtol_accepts isspace _ isspace_apart 64 _).mpr
      ⟨_, hx, by rw [hv]; omega, by rw [hv]; omega, rfl⟩
    rw [hconv, hv]
    exact ⟨rfl, by dsimp only; omega, by dsimp only; omega, rfl⟩

/-- **What a key and a value do.** -/
theorem configSet_assigns (h : Assigns key value setting) (hhead : ∀ c ∈ value.head?, isspace c = false) :
    configSet key value configs = (ok, setting.apply configs) := by
  obtain ⟨hp, hm, hd, hmp, hdp, hdm⟩ := keys_distinct
  unfold configSet
  cases setting with
  | prompts text =>
    obtain ⟨rfl, rfl, h1, h63⟩ := h
    have hne : value ≠ [] := List.ne_nil_of_length_pos h1
    rw [if_neg hp, if_pos rfl, if_neg (by simp only [hne, false_or, PROMPTS_SIZE]; omega)]
    rfl
  | maxJob n =>
    obtain ⟨rfl, hn, h1, hle⟩ := h
    obtain ⟨hok, hpos, hmax, hv⟩ := (number_iff hhead).mpr ⟨hn, h1, hle⟩
    rw [if_neg hm, if_neg hmp, if_pos rfl]
    dsimp only
    rw [if_neg (by simp only [hok, Bool.false_eq_true, false_or]; omega), hv]
    rfl
  | debug on =>
    obtain ⟨rfl, rfl⟩ := h
    rw [if_neg hd, if_neg hdp, if_neg hdm, if_pos rfl]
    cases on <;> rfl

/-- Everything else is refused. -/
theorem configSet_refuses (h : ∀ setting, ¬ Assigns key value setting)
    (hhead : ∀ c ∈ value.head?, isspace c = false) :
    configSet key value configs = (errParse, configs) := by
  unfold configSet
  split
  · rfl
  · split
    · rename_i hkey
      split
      · rfl
      · rename_i hval
        obtain ⟨hne, hlen⟩ := not_or.mp hval
        have hpos := List.length_pos_iff.mpr hne
        unfold PROMPTS_SIZE at hlen
        exact absurd ⟨hkey, rfl, by omega, by omega⟩ (h (.prompts value))
    · split
      · rename_i hkey
        dsimp only
        split
        · rfl
        · rename_i hval
          simp only [not_or, Bool.not_eq_true] at hval
          obtain ⟨hok, hpos, hmax⟩ := hval
          obtain ⟨n, hn⟩ : ∃ n : ℕ, (Strtol.strtol isspace 64 value).value = n :=
            Int.eq_ofNat_of_zero_le (by omega)
          have hdec := (number_iff hhead).mp ⟨hok, by omega, by omega, hn⟩
          exact absurd ⟨hkey, hdec⟩ (h (.maxJob n))
      · split
        · rename_i hkey
          split
          · rename_i hval
            exact absurd ⟨hkey, hval⟩ (h (.debug false))
          · split
            · rename_i hval
              exact absurd ⟨hkey, hval⟩ (h (.debug true))
            · rfl
        · rfl

theorem assigns_key (h : Assigns key value setting) : key = setting.key := by
  cases setting <;> exact h.1

/-- A key and a value set one field to one value. -/
theorem assigns_unique {setting' : Setting} (h : Assigns key value setting) (h' : Assigns key value setting')
    (hhead : ∀ c ∈ value.head?, isspace c = false) : setting = setting' := by
  have hkey : setting.key = setting'.key := (assigns_key h).symm.trans (assigns_key h')
  obtain ⟨-, -, -, hmp, hdp, hdm⟩ := keys_distinct
  cases setting with
  | prompts text =>
    cases setting' with
    | prompts text' => rw [← h.2.1, h'.2.1]
    | maxJob n => exact absurd hkey.symm hmp
    | debug on => exact absurd hkey.symm hdp
  | maxJob n =>
    cases setting' with
    | prompts text => exact absurd hkey hmp
    | maxJob n' =>
      have hn := ((number_iff hhead).mpr h.2).2.2.2
      have hn' := ((number_iff hhead).mpr h'.2).2.2.2
      rw [hn] at hn'
      rw [Int.ofNat_inj.mp hn']
    | debug on => exact absurd hkey.symm hdm
  | debug on =>
    cases setting' with
    | prompts text => exact absurd hkey hdp
    | maxJob n => exact absurd hkey hdm
    | debug on' =>
      have hvalue := h.2.symm.trans h'.2
      cases on <;> cases on' <;> first | rfl | cases hvalue

theorem idxOf?_split (heq : 61 ∉ key) : (key ++ 61 :: value).idxOf? 61 = some key.length := by
  induction key with
  | nil =>
    rw [List.nil_append, List.idxOf?_cons, if_pos (by simp)]
    rfl
  | cons c key ih =>
    obtain ⟨hc, hkey⟩ := not_or.mp fun h => heq (List.mem_cons.mpr h)
    rw [List.cons_append, List.idxOf?_cons, ih hkey, if_neg (by simpa using fun h : c = 61 => hc h.symm)]
    rfl

theorem strAt_line (h0 : 0 ∉ line) : strAt (line ++ [0]) 0 = line := by
  unfold strAt cString
  rw [List.drop_zero, List.takeWhile_append_of_pos fun c hc => by simpa using fun h : c = 0 => h0 (h ▸ hc)]
  simp

/-- **The buffer of a line that has an `'='`**: the key and the value are the trimmed texts around it. -/
theorem configParseLine_split (h0 : 0 ∉ line) (hign : ¬ Ignored line) (hsplit : trim line = key ++ 61 :: value)
    (heq : 61 ∉ key) : configParseLine (line ++ [0]) configs = configSet (trim key) (trim value) configs := by
  have htext := trimSpace_text (line ++ [0]) 0
  rw [strAt_line h0] at htext
  unfold configParseLine
  generalize trimSpace (line ++ [0]) 0 = t at htext ⊢
  obtain ⟨text, b₁⟩ := t
  dsimp only at htext ⊢
  have hline : ¬ (trim line = [] ∨ (trim line).head? = some 35) := hign
  rw [htext, if_neg hline, hsplit, idxOf?_split heq]
  dsimp only
  -- the string is cut at the '='
  have hkey₂ : strAt (b₁.set (text + key.length) 0) text = key := by
    rw [strAt_set_cut (by omega), htext, hsplit, Nat.add_sub_cancel_left, List.take_left' rfl]
  have hvalue₂ : strAt (b₁.set (text + key.length) 0) (text + key.length + 1) = value := by
    rw [strAt_set_before (by omega), Nat.add_assoc, strAt_add (by rw [htext, hsplit]; simp), htext, hsplit,
      List.drop_append, List.drop_of_length_le (by omega), Nat.add_sub_cancel_left]
    rfl
  generalize b₁.set (text + key.length) 0 = b₂ at hkey₂ hvalue₂ ⊢
  -- the key is trimmed
  have hkey₃ := trimSpace_text b₂ text
  rw [hkey₂] at hkey₃
  have hvalue₃ : strAt (trimSpace b₂ text).2 (text + key.length + 1) = value := by
    rw [trimSpace_behind (by rw [hkey₂]; omega), hvalue₂]
  have hend : (trimSpace b₂ text).1 + (trim key).length < text + key.length + 1 := by
    have hle := takeWhile_trim_length key
    rw [trimSpace_eq, hkey₂]
    dsimp only
    omega
  generalize trimSpace b₂ text = t at hkey₃ hvalue₃ hend ⊢
  obtain ⟨start, b₃⟩ := t
  dsimp only at hkey₃ hvalue₃ hend ⊢
  -- the value is trimmed
  have hvalue₄ := trimSpace_text b₃ (text + key.length + 1)
  rw [hvalue₃] at hvalue₄
  have hkey₄ : strAt (trimSpace b₃ (text + key.length + 1)).2 start = trim key := by
    rw [trimSpace_before (by rw [hkey₃]; omega), hkey₃]
  rw [hvalue₄, hkey₄]

theorem trim_head (text : Bytes) : ∀ c ∈ (trim text).head?, isspace c = false := by
  intro c hc
  have hgoesOn := List.rdropWhile_prefix isspace (text.dropWhile isspace)
  obtain ⟨t, ht⟩ := List.head?_eq_some_iff.mp hc
  obtain ⟨u, hu⟩ := hgoesOn
  unfold trim at ht
  rw [ht, List.cons_append] at hu
  exact dropWhile_head hu.symm

/-- **`config_parse_line` on every line.**  A line that is empty or a comment changes nothing and is accepted.  Of the
other lines exactly those that set a field are accepted, and they set it and change nothing else; what is refused
changes nothing. -/
theorem configParseLine_spec (line : Bytes) (h0 : 0 ∉ line) (configs : MiniShellConfig) :
    (Ignored line → configParseLine (line ++ [0]) configs = (ok, configs)) ∧
    (∀ setting, ¬ Ignored line → Sets line setting →
      configParseLine (line ++ [0]) configs = (ok, setting.apply configs)) ∧
    (¬ Ignored line → (∀ setting, ¬ Sets line setting) → configParseLine (line ++ [0]) configs =
      (errParse, configs)) := by
  refine ⟨fun hign => ?_, fun setting hign hsets => ?_, fun hign hnone => ?_⟩
  · have htext := trimSpace_text (line ++ [0]) 0
    rw [strAt_line h0] at htext
    unfold configParseLine
    dsimp only
    rw [htext]
    exact if_pos hign
  · obtain ⟨key, value, hsplit, heq, hassigns⟩ := hsets
    rw [configParseLine_split h0 hign hsplit heq]
    exact configSet_assigns hassigns (trim_head value)
  · by_cases hmem : 61 ∈ trim line
    · obtain ⟨key, value, hsplit, heq⟩ := List.eq_append_cons_of_mem hmem
      rw [configParseLine_split h0 hign hsplit heq]
      exact configSet_refuses (fun setting h => hnone setting ⟨key, value, hsplit, heq, h⟩) (trim_head value)
    · have htext := trimSpace_text (line ++ [0]) 0
      rw [strAt_line h0] at htext
      have hline : ¬ (trim line = [] ∨ (trim line).head? = some 35) := hign
      unfold configParseLine
      dsimp only
      rw [htext, if_neg hline, List.idxOf?_eq_none_iff.mpr hmem]

/-- A line sets one field to one value. -/
theorem sets_unique {setting' : Setting} (h : Sets line setting) (h' : Sets line setting') :
    setting = setting' := by
  obtain ⟨key, value, hsplit, heq, hassigns⟩ := h
  obtain ⟨key', value', hsplit', heq', hassigns'⟩ := h'
  rw [hsplit] at hsplit'
  have hlen : key.length = key'.length := by
    have hidx := @idxOf?_split key value heq
    rw [hsplit', idxOf?_split heq'] at hidx
    exact (Option.some.inj hidx).symm
  obtain ⟨rfl, hvalue⟩ := List.append_inj hsplit' hlen
  obtain rfl : value = value' := (List.cons.inj hvalue).2
  exact assigns_unique hassigns hassigns' (trim_head value)

end

end MiniShell
