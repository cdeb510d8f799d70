import Chip8.Proofs.Keyboard.Holding

/-!
# The keys that a text holds

Every key of the keypad has one character of the keyboard, which counts in either
case.  The keys of a text are those of its characters: it does not matter in which
order they come, how often, or in which case.  A text of two parts holds the keys of
both, and any set of keys is held by some text.
-/

namespace Chip8.Keyboard

/-! ## The characters of the keys -/

def legends : Vector Char 16 :=
  #v['x', '1', '2', '3', 'q', 'w', 'e', 'a', 's', 'd', 'z', 'c', '4', 'r', 'f', 'v']

def legend (k : Key) : Char := legends.get k

theorem keyFor_congr {c d : Char} (h : c.toLower = d.toLower) :
    keyFor c = keyFor d := by
  simp only [keyFor, h]

theorem keyFor_legend (k : Key) : keyFor (legend k) = some k := by
  have hall : ∀ k, keyFor (legend k) = some k := by decide
  exact hall k

theorem toLower_legend (k : Key) : (legend k).toLower = legend k := by
  have hall : ∀ k, (legend k).toLower = legend k := by decide
  exact hall k

theorem toLower_of_keyFor {c : Char} {k : Key} (h : keyFor c = some k) :
    c.toLower = legend k := by
  unfold keyFor at h
  split at h <;> cases h <;> assumption

theorem keyFor_eq_some_iff {c : Char} {k : Key} :
    keyFor c = some k ↔ c.toLower = legend k := by
  constructor
  · exact toLower_of_keyFor
  · intro h
    rw [keyFor_congr (h.trans (toLower_legend k).symm), keyFor_legend]

theorem same_key_iff (c d : Char) :
    (∃ k, keyFor c = some k ∧ keyFor d = some k) ↔
      keyFor c ≠ none ∧ c.toLower = d.toLower := by
  constructor
  · rintro ⟨k, hc, hd⟩
    refine ⟨by simp [hc], ?_⟩
    rw [toLower_of_keyFor hc, toLower_of_keyFor hd]
  · rintro ⟨hbound, hcase⟩
    obtain ⟨k, hc⟩ := Option.ne_none_iff_exists'.mp hbound
    exact ⟨k, hc, (keyFor_congr hcase).symm.trans hc⟩

/-! ## The keys of a text -/

def Mentions (text : List Char) (k : Key) : Prop := ∃ c ∈ text, keyFor c = some k

instance (text : List Char) (k : Key) : Decidable (Mentions text k) :=
  List.decidableBEx (fun c => keyFor c = some k) text

theorem mentions_cons {c : Char} {key : Key} (h : keyFor c = some key)
    (rest : List Char)
    (k : Key) : Mentions (c :: rest) k ↔ k = key ∨ Mentions rest k := by
  simp [Mentions, h, eq_comm]

theorem mentions_append (first second : List Char) (k : Key) :
    Mentions (first ++ second) k ↔ Mentions first k ∨ Mentions second k := by
  simp [Mentions, or_and_right, exists_or]

theorem mentions_iff (text : List Char) (k : Key) :
    Mentions text k ↔ legend k ∈ text.map Char.toLower := by
  simp [Mentions, keyFor_eq_some_iff]

theorem isPressed_press {pad held : Keypad} {text : List Char}
    (h : press pad text = .ok held) (k : Key) :
    held.isPressed k = (pad.isPressed k || decide (Mentions text k)) := by
  induction text generalizing pad with
  | nil =>
      cases h
      simp [Mentions]
  | cons c rest ih =>
      cases hkey : keyFor c with
      | none => simp [press, hkey] at h
      | some key =>
          simp only [press, hkey] at h
          rw [ih h, Keypad.isPressed_set]
          by_cases hk : k = key <;> simp [mentions_cons hkey, hk]

def mentioned (text : List Char) : Keypad := .ofFn fun k => decide (Mentions text k)

theorem heldKeys_eq_ok_iff (text : String) (held : Keypad) :
    heldKeys text = .ok held ↔
      (∀ c ∈ text.toList, keyFor c ≠ none) ∧ held = mentioned text.toList := by
  have hpressed : ∀ held, heldKeys text = .ok held →
      held = mentioned text.toList := by
    intro held h
    ext k
    simp [isPressed_press h, mentioned]
  constructor
  · intro h
    exact ⟨(exists_heldKeys_iff text).mp ⟨held, h⟩, hpressed held h⟩
  · rintro ⟨hbound, rfl⟩
    obtain ⟨held, h⟩ := (exists_heldKeys_iff text).mpr hbound
    rw [h, hpressed held h]

theorem isPressed_of_heldKeys {text : String} {held : Keypad}
    (h : heldKeys text = .ok held)
    (k : Key) : held.isPressed k = true ↔ Mentions text.toList k := by
  rw [((heldKeys_eq_ok_iff text held).mp h).2, mentioned, Keypad.isPressed_ofFn,
    decide_eq_true_iff]

/-! ## Texts that hold the same keys -/

def SameCharacters (text other : String) : Prop :=
  ∀ c, c ∈ text.toList.map Char.toLower ↔ c ∈ other.toList.map Char.toLower

theorem bound_iff (text : List Char) :
    (∀ c ∈ text, keyFor c ≠ none) ↔
      ∀ c ∈ text.map Char.toLower, ∃ k, c = legend k := by
  simp [Option.ne_none_iff_exists', keyFor_eq_some_iff]

theorem SameCharacters.heldKeys_iff {text other : String}
    (h : SameCharacters text other)
    (held : Keypad) : heldKeys text = .ok held ↔ heldKeys other = .ok held := by
  have hmentioned : mentioned text.toList = mentioned other.toList := by
    ext k
    rw [mentioned, mentioned, Keypad.isPressed_ofFn, Keypad.isPressed_ofFn,
      decide_eq_decide, mentions_iff, mentions_iff, h]
  have hbound : (∀ c ∈ text.toList, keyFor c ≠ none) ↔
      ∀ c ∈ other.toList, keyFor c ≠ none := by
    rw [bound_iff, bound_iff]
    exact forall_congr' fun c => imp_congr_left (h c)
  rw [heldKeys_eq_ok_iff, heldKeys_eq_ok_iff, hmentioned, hbound]

theorem heldKeys_append_iff (first second : String) (held : Keypad) :
    heldKeys (first ++ second) = .ok held ↔
      ∃ a b, heldKeys first = .ok a ∧ heldKeys second = .ok b ∧
        ∀ k, held.isPressed k = (a.isPressed k || b.isPressed k) := by
  simp only [heldKeys_eq_ok_iff, String.toList_append, List.forall_mem_append]
  constructor
  · rintro ⟨⟨hfirst, hsecond⟩, rfl⟩
    refine ⟨_, _, ⟨hfirst, rfl⟩, ⟨hsecond, rfl⟩, ?_⟩
    intro k
    simp [mentioned, mentions_append]
  · rintro ⟨_, _, ⟨hfirst, rfl⟩, ⟨hsecond, rfl⟩, heither⟩
    refine ⟨⟨hfirst, hsecond⟩, ?_⟩
    ext k
    simp [heither, mentioned, mentions_append]

def textFor (pad : Keypad) : String :=
  String.ofList (((List.finRange 16).filter pad.isPressed).map legend)

theorem heldKeys_textFor (pad : Keypad) : heldKeys (textFor pad) = .ok pad := by
  rw [heldKeys_eq_ok_iff, textFor, String.toList_ofList]
  constructor
  · intro c hc
    obtain ⟨k, -, rfl⟩ := List.mem_map.mp hc
    simp [keyFor_legend]
  · ext k
    rw [mentioned, Keypad.isPressed_ofFn, ← Bool.coe_iff_coe, decide_eq_true_iff]
    constructor
    · intro hdown
      exact ⟨legend k, List.mem_map_of_mem (by simpa using hdown), keyFor_legend k⟩
    · rintro ⟨c, hc, hkey⟩
      obtain ⟨key, hdown, rfl⟩ := List.mem_map.mp hc
      rw [keyFor_legend, Option.some.injEq] at hkey
      subst hkey
      simpa using hdown

/--
A text holds the keys of its characters.  It holds any exactly if all of its
characters are bound; then a key is down if some character stands for it, so that
only the characters count that occur, up to case, and two texts one after the other
hold the keys of either.  Otherwise the first character that is not bound is
reported as it stands in the text.  Two characters stand for the same key exactly if
they are bound and differ at most in case, and every set of keys is held by a text.
-/
theorem texts_hold_their_keys :
    (∀ text, (∃ held, heldKeys text = .ok held) ↔
      ∀ c ∈ text.toList, keyFor c ≠ none) ∧
    (∀ text held, heldKeys text = .ok held →
      ∀ k, held.isPressed k = true ↔ ∃ c ∈ text.toList, keyFor c = some k) ∧
    (∀ text other, SameCharacters text other →
      ∀ held, heldKeys text = .ok held ↔ heldKeys other = .ok held) ∧
    (∀ first second held, heldKeys (first ++ second) = .ok held ↔
      ∃ a b, heldKeys first = .ok a ∧ heldKeys second = .ok b ∧
        ∀ k, held.isPressed k = (a.isPressed k || b.isPressed k)) ∧
    (∀ text error, heldKeys text = .error error ↔
      FirstUnbound text.toList error.character) ∧
    (∀ c d, (∃ k, keyFor c = some k ∧ keyFor d = some k) ↔
      keyFor c ≠ none ∧ c.toLower = d.toLower) ∧
    ∀ pad, ∃ text, heldKeys text = .ok pad := by
  refine ⟨exists_heldKeys_iff, ?_, ?_, heldKeys_append_iff, heldKeys_eq_error_iff,
    same_key_iff, ?_⟩
  · intro text held h k
    exact isPressed_of_heldKeys h k
  · intro text other hsame held
    exact hsame.heldKeys_iff held
  · intro pad
    exact ⟨textFor pad, heldKeys_textFor pad⟩

theorem texts_hold_their_keys_mixed :
    let held : Keypad := .ofFn fun k => k = 0x5 || k = 0xA
    heldKeys "wz" = .ok held ∧ SameCharacters "wz" "ZwWz" ∧
      heldKeys "ZwWz" = .ok held ∧
      heldKeys "wÉz!" = .error ⟨'É'⟩ := by
  intro held
  have hheld : heldKeys "wz" = .ok held := rfl
  have hunbound : FirstUnbound "wÉz!".toList 'É' :=
    ⟨['w'], ['z', '!'], by decide +kernel, by simp [keyFor, Key.ofCode?], by decide⟩
  have hsame : SameCharacters "wz" "ZwWz" := by
    intro c
    have hfirst : "wz".toList.map Char.toLower = ['w', 'z'] := by decide +kernel
    have hsecond : "ZwWz".toList.map Char.toLower = ['z', 'w', 'w', 'z'] := by
      decide +kernel
    simp only [hfirst, hsecond, List.mem_cons, List.not_mem_nil, or_false]
    constructor
    · rintro (rfl | rfl) <;> simp
    · rintro (rfl | rfl | rfl | rfl) <;> simp
  rcases texts_hold_their_keys with ⟨-, -, hcharacters, -, hreported, -⟩
  exact ⟨hheld, hsame, (hcharacters _ _ hsame held).mp hheld,
    (hreported _ _).mpr hunbound⟩

end Chip8.Keyboard
