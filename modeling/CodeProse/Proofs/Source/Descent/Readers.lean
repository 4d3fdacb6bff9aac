/-
# What is read by descent

Each reader of the scan by descent does what the step of the scanner does that reads the same piece:
its slices are slices of the file, it finds the same nodes, and it leaves the cursor where the step
ends (`State.after`). A template, which is read byte by byte, is read right because no byte of a
longer character is one of those that matter (`byte_ne`), even where a backslash leads inside of a
character or past the file.
-/
import CodeProse.Proofs.Source.Descent
import CodeProse.Proofs.Source.Layout

namespace CodeProse.Source.Descent

open Unicode

variable {content t : Text} {s : State} {pos : Nat}

/-! ## Where the cursor stands -/

/-- The text `t` stands at an offset, up to the end of the file. -/
def At (content : Text) (pos : Nat) (t : Text) : Prop :=
  ∃ before, content = before ++ t ∧ Text.byteLength before = pos

theorem At.pos_add (h : At content pos t) : pos + t.byteLength = content.byteLength := by
  obtain ⟨before, rfl, rfl⟩ := h
  rw [Text.byteLength_append]

theorem At.append {a : Text} (h : At content pos (a ++ t)) : At content (pos + a.byteLength) t := by
  obtain ⟨before, rfl, rfl⟩ := h
  exact ⟨before ++ a, by rw [List.append_assoc], Text.byteLength_append before a⟩

theorem At.add_le {a : Text} (h : At content pos (a ++ t)) :
    pos + a.byteLength ≤ content.byteLength := by
  rw [← h.append.pos_add]
  exact Nat.le_add_right _ _

theorem At.cons {c : Char} (h : At content pos (c :: t)) : At content (pos + c.utf8Size) t :=
  At.append (a := [c]) h

theorem At.slice {a : Text} (h : At content pos (a ++ t)) :
    slice content pos (pos + a.byteLength) = .ok a := by
  obtain ⟨before, rfl, rfl⟩ := h
  have hslice := (Text.slice?_eq_some_iff before.byteLength (before.byteLength + a.byteLength)
    (before ++ (a ++ t)) a).2 ⟨before, t, (List.append_assoc _ _ _).symm, rfl, rfl⟩
  rw [Descent.slice, hslice]

/-- The rest of the file can be read. -/
theorem At.slice_end (h : At content pos t) : Descent.slice content pos content.byteLength = .ok t := by
  have h' : At content pos (t ++ []) := by rwa [List.append_nil]
  rw [← h.pos_add]
  exact h'.slice

theorem At.rest_eq (h : At content s.pos t) : rest content s = .ok t :=
  h.slice_end

/-- A node is added if its text can be read. -/
theorem push_eq {contentStart stop : Nat} {value : Text} (h : At content contentStart (value ++ t))
    (hstop : stop ≤ content.byteLength) (kind : UnitKind) (start : Nat) (isModuleSpecifier : Bool)
    (s : State) :
    push content kind start stop contentStart (contentStart + value.byteLength) isModuleSpecifier s
      = .ok { s with
          nodes := s.nodes ++
            Node.ifAny ⟨kind, value, start, stop, contentStart, isModuleSpecifier⟩ } := by
  rw [push, Nat.min_eq_left h.add_le, Nat.min_eq_left (Nat.le_add_right _ _), Nat.min_eq_left hstop]
  cases value with
  | nil =>
    simp [Node.ifAny]
  | cons c value =>
    have hne : contentStart ≠ contentStart + Text.byteLength (c :: value) := by
      have := c.utf8Size_pos
      rw [Text.byteLength_cons]
      omega
    rw [if_neg hne, h.slice]
    rfl

/-- A node that nothing closes reaches to the end of the file. -/
theorem push_end {contentStart : Nat} (h : At content contentStart t) (kind : UnitKind)
    (start : Nat) (isModuleSpecifier : Bool) (s : State) :
    push content kind start content.byteLength contentStart content.byteLength isModuleSpecifier s
      = .ok { s with
          nodes := s.nodes ++
            Node.ifAny ⟨kind, t, start, content.byteLength, contentStart, isModuleSpecifier⟩ } := by
  have h' : At content contentStart (t ++ []) := by rwa [List.append_nil]
  have hpush := push_eq h' (Nat.le_refl content.byteLength) kind start isModuleSpecifier s
  rwa [h.pos_add] at hpush

theorem takeWhile_eq_self {p : Char → Bool} (h : t.any p = false) : t.takeWhile (!p ·) = t := by
  induction t with
  | nil => rfl
  | cons c t ih =>
    rw [List.any_cons, Bool.or_eq_false_iff] at h
    rw [List.takeWhile_cons_of_pos (by rw [h.1]; rfl), ih h.2]

/-- What is looked for ends a stretch of text, or nothing does. -/
theorem offsetOf_find? (h : At content s.pos t) (p : Char → Bool) :
    offsetOf content s (find? p t) = s.pos + Text.byteLength (t.takeWhile (!p ·)) := by
  rw [offsetOf, find?]
  cases hany : t.any p with
  | true => rfl
  | false =>
    rw [takeWhile_eq_self hany, h.pos_add]
    rfl

/-! ## Pieces -/

/-- What a step of the scanner makes of a state in front of `c` and `t`. -/
def State.after (s : State) (c : Char) (t : Text) (r : Step) : State :=
  ⟨s.pos + c.utf8Size + Text.byteLength (t.take r.extra), s.nodes ++ r.nodes, r.memory⟩

theorem lineComment_eq (h : At content s.pos ('/' :: '/' :: t)) :
    lineComment content s = .ok (s.after '/' ('/' :: t) (Source.lineComment [] s.memory s.pos t)) := by
  have hslash : '/'.utf8Size = 1 := rfl
  have hsplit : '/' :: '/' :: t
      = ['/', '/'] ++ (t.takeWhile (· != '\n') ++ t.dropWhile (· != '\n')) := by
    rw [List.takeWhile_append_dropWhile]
    rfl
  have hstop : offsetOf content s (find? (· == '\n') ('/' :: '/' :: t))
      = s.pos + 2 + Text.byteLength (t.takeWhile (· != '\n')) := by
    rw [offsetOf_find? h, List.takeWhile_cons_of_pos rfl, List.takeWhile_cons_of_pos rfl,
      Text.byteLength_cons, Text.byteLength_cons, hslash, ← Nat.add_assoc, ← Nat.add_assoc]
    rfl
  have hinside : At content (s.pos + 2) (t.takeWhile (· != '\n') ++ t.dropWhile (· != '\n')) :=
    At.append (a := ['/', '/']) (hsplit ▸ h)
  have hextra : ('/' :: t).take (Source.lineComment [] s.memory s.pos t).extra
      = '/' :: t.takeWhile (· != '\n') := take_lineComment [] s.memory s.pos t
  rw [lineComment, h.rest_eq]
  show (do
    let next ← push content .comment s.pos (offsetOf content s _) (s.pos + 2) _ false s
    return { next with pos := _ }) = _
  rw [hstop, push_eq hinside hinside.add_le, State.after, hextra, Text.byteLength_cons, hslash,
    ← Nat.add_assoc]
  rfl

theorem blockComment_eq (h : At content s.pos ('/' :: '*' :: t)) :
    blockComment content s
      = .ok (s.after '/' ('*' :: t) (Source.blockComment [] s.memory s.pos t)) := by
  have hslash : '/'.utf8Size = 1 := rfl
  have hstar : '*'.utf8Size = 1 := rfl
  have hinside : At content (s.pos + 2) t := At.append (a := ['/', '*']) h
  have hmemory : (Source.blockComment [] s.memory s.pos t).memory = s.memory := by
    rw [Source.blockComment]
    split <;> rfl
  rw [blockComment, hinside.slice_end, ok_bind, State.after, hmemory]
  rcases take_blockComment [] s.memory s.pos t with
    ⟨body, rest, rfl, hbody, htake, -, hnodes⟩ | ⟨hbody, htake, -, hnodes⟩
  · have hbytes := hinside.append.pos_add
    simp only [Text.byteLength_cons, hslash, hstar] at hbytes
    have hstop : s.pos + 2 + Text.byteLength body + 2 ≤ content.byteLength := by omega
    have hpush := push_eq hinside hstop .comment s.pos false s
    rw [htake, hnodes, splitFirst?_of_not_infix rest hbody]
    simp only [Option.map_some, Option.getD_some, hpush, ok_bind, pure_eq_ok, List.cons_append,
      Text.byteLength_cons, Text.byteLength_append, Text.byteLength_nil, hslash, hstar]
    exact congrArg (fun n => Except.ok (State.mk n _ _)) (by omega)
  · have hbytes := hinside.pos_add
    rw [htake, hnodes, splitFirst?_eq_none hbody, hbytes]
    simp only [Option.map_none, Option.getD_none, push_end hinside .comment s.pos false s, ok_bind,
      pure_eq_ok, Text.byteLength_cons, hslash, hstar]
    exact congrArg (fun n => Except.ok (State.mk n _ _)) (by omega)

/-! ### Strings -/

theorem closingQuote?_eq (quote : Char) (t : Text) :
    closingQuote? quote false t
      = if (stringBody quote t).2 then some (Text.byteLength (stringBody quote t).1) else none := by
  fun_induction stringBody quote t with
  | case1 => rfl
  | case2 => simp [closingQuote?]
  | case3 d t r ih =>
    simp only [closingQuote?, ih, r]
    cases (stringBody quote t).2 <;> simp
  | case4 c t hc hstop =>
    have hstop : c = quote ∨ c = '\n' := by simpa using hstop
    simp [closingQuote?, hc, hstop]
  | case5 c t hc hstop r ih =>
    have hstop : ¬ (c = quote ∨ c = '\n') := by simpa using hstop
    simp only [closingQuote?, hc, hstop, ih, r]
    cases (stringBody quote t).2 <;> simp

theorem string_eq {quote : Char} (hquote : quote = '"' ∨ quote = '\'')
    (h : At content s.pos (quote :: t)) :
    string content quote s
      = .ok (s.after quote t (Source.stringLiteral [] s.memory s.pos quote t)) := by
  have hsize : quote.utf8Size = 1 := by rcases hquote with rfl | rfl <;> rfl
  have hinside : At content (s.pos + 1) t := by simpa [hsize] using h.cons
  rw [string, hinside.slice_end, ok_bind, State.after, closingQuote?_eq]
  rcases take_stringLiteral [] s.memory s.pos quote t with
    ⟨body, close, rest, rfl, hclose, hbody, htake, -⟩ | ⟨hbody, htake, -⟩
  · have hcloseSize : close.utf8Size = 1 := by
      rcases hclose with rfl | rfl
      · exact hsize
      · rfl
    have hbytes := hinside.append.pos_add
    simp only [Text.byteLength_cons, hcloseSize] at hbytes
    have hstop : s.pos + 1 + Text.byteLength body + 1 ≤ content.byteLength := by omega
    have hpush := push_eq hinside hstop .string s.pos s.memory.expectsModule s
    rw [htake, hbody]
    simp only [if_true, Option.map_some, Option.getD_some, hpush, ok_bind, pure_eq_ok,
      Source.stringLiteral, hbody, Text.byteLength_append, Text.byteLength_cons,
      Text.byteLength_nil, hsize, hcloseSize]
    exact congrArg (fun n => Except.ok (State.mk n _ _)) (by omega)
  · have hbytes := hinside.pos_add
    have hpush := push_end hinside .string s.pos s.memory.expectsModule s
    rw [htake, hbody]
    simp only [Bool.false_eq_true, if_false, Option.map_none, Option.getD_none, hpush, ok_bind,
      pure_eq_ok, Source.stringLiteral, hbody, hsize, hbytes, Nat.add_zero]

/-! ### Words and numbers -/

theorem skipWhile_eq (h : At content s.pos t) (keep : Char → Bool) :
    skipWhile content keep s = .ok (s.skip (Text.byteLength (t.takeWhile keep))) := by
  rw [skipWhile, h.rest_eq, ok_bind, pure_eq_ok]

theorem continuesWord_of_startsWord {c : Char} (h : startsWord c = true) :
    continuesWord c = true := by
  unfold startsWord at h
  unfold continuesWord isAlphanumeric
  simp only [Bool.or_eq_true] at h ⊢
  exact h.imp_left (Or.imp_left Or.inl)

theorem continuesNumber_of_isDigit {c : Char} (h : c.isDigit = true) :
    continuesNumber c = true := by
  simp [continuesNumber, Char.isAlphanum, h]

theorem word_eq {c : Char} (hc : startsWord c = true) (h : At content s.pos (c :: t)) :
    word content s = .ok (s.after c t (Source.word [] s.pos c t)) := by
  have htake : (c :: t).takeWhile continuesWord = c :: t.takeWhile continuesWord :=
    List.takeWhile_cons_of_pos (continuesWord_of_startsWord hc)
  have hafter : s.after c t (Source.word [] s.pos c t)
      = ⟨s.pos + Text.byteLength (c :: t.takeWhile continuesWord),
        s.nodes ++ (Source.word [] s.pos c t).nodes,
        ⟨some (c :: t.takeWhile continuesWord), false, some 'a'⟩⟩ := by
    simp only [State.after, Source.word, List.length_cons, Nat.add_sub_cancel,
      take_length_takeWhile, Text.byteLength_cons, Nat.add_assoc]
  have hsplit : At content s.pos (c :: t.takeWhile continuesWord ++ t.dropWhile continuesWord) := by
    rwa [List.cons_append, List.takeWhile_append_dropWhile]
  rw [word, skipWhile_eq h, htake, ok_bind, hafter]
  simp only [Source.word]
  obtain ⟨w, hw⟩ : ∃ w : Text, c :: t.takeWhile continuesWord = w := ⟨_, rfl⟩
  rw [hw] at hsplit ⊢
  have hpush := push_eq hsplit hsplit.add_le .identifier s.pos false (s.skip w.byteLength)
  have hpos : (s.skip w.byteLength).pos = s.pos + w.byteLength := rfl
  have hnode : Node.ifAny ⟨.identifier, w, s.pos, s.pos + w.byteLength, s.pos, false⟩
      = [⟨.identifier, w, s.pos, s.pos + w.byteLength, s.pos, false⟩] := by
    rw [Node.ifAny, ← hw]
    rfl
  rw [hpos, hsplit.slice, ok_bind]
  cases hkeyword : keywords.contains w with
  | true =>
    simp [State.skip]
  | false =>
    rw [hnode, State.skip] at hpush
    simp [State.skip, hpush]

theorem number_eq {c : Char} (hc : c.isDigit = true) (h : At content s.pos (c :: t)) :
    number content s = .ok (s.after c t
      ⟨[], [], { s.memory with last := some '0' }, (t.takeWhile continuesNumber).length⟩) := by
  have htake : (c :: t).takeWhile continuesNumber = c :: t.takeWhile continuesNumber :=
    List.takeWhile_cons_of_pos (continuesNumber_of_isDigit hc)
  rw [number, skipWhile_eq h, htake, ok_bind, State.after, take_length_takeWhile, State.skip,
    Text.byteLength_cons, ← Nat.add_assoc, List.append_nil]
  rfl

/-! ### Bytes -/

theorem bytes_append (a b : Text) : bytes (a ++ b) = bytes a ++ bytes b :=
  List.flatMap_append

theorem bytes_cons (c : Char) (t : Text) : bytes (c :: t) = String.utf8EncodeChar c ++ bytes t :=
  rfl

theorem length_bytes (t : Text) : (bytes t).length = t.byteLength := by
  induction t with
  | nil => rfl
  | cons c t ih =>
    rw [bytes_cons, List.length_append, ih, String.length_utf8EncodeChar, Text.byteLength_cons]

/-- The bytes of a character are those of the file where it stands. -/
theorem getElem?_bytes {c : Char} {k : Nat} (h : At content pos (c :: t)) (hk : k < c.utf8Size) :
    (bytes content)[pos + k]? = (String.utf8EncodeChar c)[k]? := by
  obtain ⟨before, rfl, rfl⟩ := h
  rw [bytes_append, bytes_cons, ← length_bytes before, List.getElem?_append_right (by omega),
    Nat.add_sub_cancel_left, List.getElem?_append_left (by rwa [String.length_utf8EncodeChar])]

theorem utf8EncodeChar_ascii {c : Char} (h : c.toNat < 128) :
    String.utf8EncodeChar c = [c.toUInt8] := by
  have hv : c.val.toNat ≤ 127 := Nat.le_of_lt_succ h
  rw [String.utf8EncodeChar.eq_def]
  simp only [hv, if_true]
  rfl

/-- No byte of a longer character is that of a shorter one. -/
theorem le_of_mem_utf8EncodeChar {c : Char} (h : 128 ≤ c.toNat) {b : UInt8}
    (hb : b ∈ String.utf8EncodeChar c) : 128 ≤ b.toNat := by
  have hv : ¬ c.val.toNat ≤ 127 := Nat.not_le_of_gt h
  rw [String.utf8EncodeChar.eq_def] at hb
  simp only [hv, if_false] at hb
  split at hb
  · simp only [List.mem_cons, List.not_mem_nil, or_false] at hb
    rcases hb with rfl | rfl <;> simp only [UInt8.toNat_ofNat'] <;> omega
  · split at hb
    · simp only [List.mem_cons, List.not_mem_nil, or_false] at hb
      rcases hb with rfl | rfl | rfl <;> simp only [UInt8.toNat_ofNat'] <;> omega
    · simp only [List.mem_cons, List.not_mem_nil, or_false] at hb
      rcases hb with rfl | rfl | rfl | rfl <;> simp only [UInt8.toNat_ofNat'] <;> omega

theorem toNat_toUInt8 {a : Char} (h : a.toNat < 128) : a.toUInt8.toNat = a.toNat := by
  show a.val.toUInt8.toNat = a.val.toNat
  have : a.val.toNat < 128 := h
  rw [UInt32.toNat_toUInt8]
  omega

/-- A character of one byte is told by that byte. -/
theorem byte_eq_iff {a c : Char} (ha : a.toNat < 128) (h : At content pos (c :: t)) :
    (bytes content)[pos]? = some a.toUInt8 ↔ c = a := by
  have hbyte := getElem?_bytes (k := 0) h c.utf8Size_pos
  rw [Nat.add_zero] at hbyte
  rw [hbyte]
  by_cases hc : c.toNat < 128
  · rw [utf8EncodeChar_ascii hc]
    simp only [List.getElem?_cons_zero, Option.some.injEq]
    constructor
    · intro heq
      have := congrArg UInt8.toNat heq
      rw [toNat_toUInt8 hc, toNat_toUInt8 ha] at this
      exact Char.toNat_inj.1 this
    · exact congrArg _
  · constructor
    · intro heq
      have := le_of_mem_utf8EncodeChar (Nat.le_of_not_lt hc) (List.mem_of_getElem? heq)
      rw [toNat_toUInt8 ha] at this
      omega
    · rintro rfl
      exact absurd ha hc

/-- Inside of a character no byte is that of a character of one byte, and at its start only its own
is. -/
theorem byte_ne {a c : Char} {k : Nat} (ha : a.toNat < 128) (h : At content pos (c :: t))
    (hk : k < c.utf8Size) (hc : k = 0 → c ≠ a) : (bytes content)[pos + k]? ≠ some a.toUInt8 := by
  cases k with
  | zero => exact fun heq => hc rfl ((byte_eq_iff ha h).1 heq)
  | succ k =>
    intro heq
    rw [getElem?_bytes h hk] at heq
    by_cases hc : c.toNat < 128
    · rw [utf8EncodeChar_ascii hc] at heq
      cases heq
    · have := le_of_mem_utf8EncodeChar (Nat.le_of_not_lt hc) (List.mem_of_getElem? heq)
      rw [toNat_toUInt8 ha] at this
      omega

theorem lt_length_bytes {c : Char} {k : Nat} (h : At content pos (c :: t)) (hk : k < c.utf8Size) :
    pos + k < (bytes content).length := by
  have hpos := h.pos_add
  rw [Text.byteLength_cons] at hpos
  rw [length_bytes]
  omega

theorem At.lt_length {c : Char} (h : At content pos (c :: t)) : pos < (bytes content).length :=
  lt_length_bytes (k := 0) h c.utf8Size_pos

/-! ### Templates -/

/-- A turn of the search for the end of a substitution. -/
theorem substitutionEnd_of_lt {depth i : Nat} (h : i < (bytes content).length) :
    substitutionEnd content depth i
      = if (bytes content)[i]? = some '{'.toUInt8 then substitutionEnd content (depth + 1) (i + 1)
        else if (bytes content)[i]? = some '}'.toUInt8 then
          if depth = 0 then .error .depth
          else if depth = 1 then .ok i
          else substitutionEnd content (depth - 1) (i + 1)
        else substitutionEnd content depth (i + 1) := by
  rw [substitutionEnd, dif_pos h]
  simp only [List.getElem?_eq_getElem h, Option.some.injEq]

/-- A character that is no brace is passed byte by byte. -/
theorem substitutionEnd_skip {c : Char} {depth k : Nat} (h : At content pos (c :: t))
    (hk : k ≤ c.utf8Size) (hc : k = 0 → c ≠ '{' ∧ c ≠ '}') :
    substitutionEnd content depth (pos + k) = substitutionEnd content depth (pos + c.utf8Size) := by
  -- by induction on the bytes that are left of the character
  induction hleft : c.utf8Size - k generalizing k with
  | zero => rw [show k = c.utf8Size by omega]
  | succ n ih =>
    have hlt : k < c.utf8Size := by omega
    rw [substitutionEnd_of_lt (lt_length_bytes h hlt),
      if_neg (byte_ne (by decide) h hlt fun h0 => (hc h0).1),
      if_neg (byte_ne (by decide) h hlt fun h0 => (hc h0).2), Nat.add_assoc]
    exact ih (by omega) (by simp) (by omega)

/-- **The end of a substitution is found**, and the depth of its braces never falls below zero. -/
theorem exists_substitutionEnd (depth : Nat) (h : At content pos t) :
    ∃ stop, substitutionEnd content (depth + 1) pos = .ok stop ∧ pos ≤ stop ∧
      (stop + 1 = pos + Text.byteLength (substitutionBody depth t).1 ∨
        (substitutionBody depth t).2 = [] ∧ stop = content.byteLength) := by
  induction t generalizing pos depth with
  | nil =>
    have hend : pos = content.byteLength := h.pos_add
    refine ⟨pos, ?_, Nat.le_refl _, .inr ⟨rfl, hend⟩⟩
    rw [substitutionEnd, dif_neg (by rw [length_bytes, hend]; exact Nat.lt_irrefl _)]
  | cons c t ih =>
    rw [substitutionBody]
    by_cases hclose : c = '}' ∧ depth = 0
    · obtain ⟨rfl, rfl⟩ := hclose
      refine ⟨pos, ?_, Nat.le_refl _, .inl rfl⟩
      rw [substitutionEnd_of_lt h.lt_length, if_neg (by rw [byte_eq_iff (by decide) h]; decide),
        if_pos ((byte_eq_iff (by decide) h).2 rfl), if_neg (by decide), if_pos rfl]
    · rw [if_neg hclose]
      -- the search goes on behind the character, with one brace more than the body counts
      let next := if c = '{' then depth + 1 else if c = '}' then depth - 1 else depth
      have hstep : substitutionEnd content (depth + 1) pos
          = substitutionEnd content (next + 1) (pos + c.utf8Size) := by
        by_cases hopen : c = '{'
        · subst hopen
          rw [substitutionEnd_of_lt h.lt_length, if_pos ((byte_eq_iff (by decide) h).2 rfl)]
          rfl
        · by_cases hbrace : c = '}'
          · subst hbrace
            obtain ⟨depth, rfl⟩ := Nat.exists_eq_succ_of_ne_zero fun h0 => hclose ⟨rfl, h0⟩
            rw [substitutionEnd_of_lt h.lt_length, if_neg (by rw [byte_eq_iff (by decide) h]; decide),
              if_pos ((byte_eq_iff (by decide) h).2 rfl), if_neg (by omega), if_neg (by omega)]
            rfl
          · have hnext : next = depth := by simp [next, hopen, hbrace]
            have hskip : substitutionEnd content (depth + 1) pos
                = substitutionEnd content (depth + 1) (pos + c.utf8Size) :=
              substitutionEnd_skip (k := 0) h (Nat.zero_le _) fun _ => ⟨hopen, hbrace⟩
            rw [hskip, hnext]
      obtain ⟨stop, hstop, hle, hplace⟩ := ih next h.cons
      refine ⟨stop, by rw [hstep, hstop], Nat.le_trans (Nat.le_add_right _ _) hle, ?_⟩
      rcases hplace with hplace | hplace
      · refine .inl ?_
        rw [hplace, Text.byteLength_cons, Nat.add_assoc]
      · exact .inr hplace

/-- A turn of the scan of a template. -/
theorem templateFrom_of_lt {start i : Nat} (h : i < (bytes content).length) :
    templateFrom content start i s
      = if (bytes content)[i]? = some '\\'.toUInt8 then templateFrom content start (i + 2) s
        else if (bytes content)[i]? = some '`'.toUInt8 then do
          let s ← push content .template start i start i false s
          return { s with pos := i + 1, memory := ⟨none, s.memory.moduleCall, some '`'⟩ }
        else if (bytes content)[i]? = some '$'.toUInt8 ∧
            (bytes content)[i + 1]? = some '{'.toUInt8 then do
          let s ← push content .template start i start i false s
          let stop ← substitutionEnd content 0 i
          if i ≤ stop then
            templateFrom content (min (stop + 1) (bytes content).length) (stop + 1) s
          else throw .stuck
        else templateFrom content start (i + 1) s := by
  rw [templateFrom, dif_pos h]
  simp only [List.getElem?_eq_getElem h, Option.some.injEq]

/-- At the end of the file, and past it, a template ends. -/
theorem templateFrom_of_le {start i : Nat} (h : content.byteLength ≤ i) :
    templateFrom content start i s = (do
      let s ← push content .template start content.byteLength start content.byteLength false s
      return { s with pos := content.byteLength }) := by
  rw [templateFrom, dif_neg (by rw [length_bytes]; omega)]

/-- Whether the byte after a dollar sign is an open brace. -/
theorem next_byte_iff (h : At content pos ('$' :: t)) :
    (bytes content)[pos + 1]? = some '{'.toUInt8 ↔ t.head? = some '{' := by
  have hnext : At content (pos + 1) t := h.cons
  cases t with
  | nil =>
    have hend : pos + 1 = (bytes content).length := by rw [length_bytes]; exact hnext.pos_add
    simp [hend]
  | cons c t => simpa using byte_eq_iff (a := '{') (by decide) hnext

/-- A character of a literal fragment is passed byte by byte. -/
theorem templateFrom_skip {c : Char} {start k : Nat} (h : At content pos (c :: t))
    (hk : k ≤ c.utf8Size)
    (hc : k = 0 → c ≠ '\\' ∧ c ≠ '`' ∧ ¬ (c = '$' ∧ t.head? = some '{')) :
    templateFrom content start (pos + k) s = templateFrom content start (pos + c.utf8Size) s := by
  -- by induction on the bytes that are left of the character
  induction hleft : c.utf8Size - k generalizing k with
  | zero => rw [show k = c.utf8Size by omega]
  | succ n ih =>
    have hlt : k < c.utf8Size := by omega
    have hdollar : ¬ ((bytes content)[pos + k]? = some '$'.toUInt8 ∧
        (bytes content)[pos + k + 1]? = some '{'.toUInt8) := by
      rintro ⟨hbyte, hnext⟩
      cases k with
      | zero =>
        obtain rfl := (byte_eq_iff (by decide) h).1 hbyte
        exact (hc rfl).2.2 ⟨rfl, (next_byte_iff h).1 hnext⟩
      | succ k => exact byte_ne (by decide) h hlt (by simp) hbyte
    rw [templateFrom_of_lt (lt_length_bytes h hlt),
      if_neg (byte_ne (by decide) h hlt fun h0 => (hc h0).1),
      if_neg (byte_ne (by decide) h hlt fun h0 => (hc h0).2.1), if_neg hdollar, Nat.add_assoc]
    exact ih (by omega) (by simp) (by omega)

/-- A literal fragment is read up to what closes it. -/
theorem templateFrom_fragment (h : At content pos t) (start : Nat) (s : State) :
    templateFrom content start pos s
      = templateFrom content start (pos + Text.byteLength (fragmentBody t).1) s := by
  have hskip {pos : Nat} {c : Char} {t : Text} (h : At content pos (c :: t))
      (hc : c ≠ '\\' ∧ c ≠ '`' ∧ ¬ (c = '$' ∧ t.head? = some '{')) :
      templateFrom content start pos s = templateFrom content start (pos + c.utf8Size) s :=
    templateFrom_skip (k := 0) h (Nat.zero_le _) fun _ => hc
  have hescape {pos : Nat} {t : Text} (h : At content pos ('\\' :: t)) :
      templateFrom content start pos s = templateFrom content start (pos + 2) s := by
    rw [templateFrom_of_lt h.lt_length, if_pos ((byte_eq_iff (by decide) h).2 rfl)]
  fun_induction fragmentBody t generalizing pos with
  | case1 => rfl
  | case2 => rfl
  | case3 c hc =>
    by_cases hbackslash : c = '\\'
    · subst hbackslash
      have hend : pos + 1 = content.byteLength := h.pos_add
      rw [hescape h, templateFrom_of_le (by omega)]
      exact (templateFrom_of_le (Nat.le_of_eq hend.symm)).symm
    · rw [hskip h ⟨hbackslash, hc, by simp⟩]
      rfl
  | case4 e t r hc =>
    rename_i ih
    -- the second byte that the backslash takes may be the first one of a longer character
    have hnext : At content (pos + 1) (e :: t) := h.cons
    rw [hescape h, show pos + 2 = pos + 1 + 1 from rfl,
      templateFrom_skip hnext e.utf8Size_pos (by simp), ih hnext.cons]
    simp only [Text.byteLength_cons, ← Nat.add_assoc]
    rfl
  | case5 => rfl
  | case6 c hc e t h₁ h₂ r =>
    rename_i ih
    have hopen : ¬ (c = '$' ∧ (e :: t).head? = some '{') := by simpa using h₂
    rw [hskip h ⟨h₁, hc, hopen⟩, ih h.cons]
    simp only [Text.byteLength_cons, ← Nat.add_assoc]
    rfl

/-- What is done with a literal fragment is adding its node. -/
theorem push_fragment {b : Text} (h : At content pos (b ++ t)) (s : State) :
    push content .template pos (pos + b.byteLength) pos (pos + b.byteLength) false s
      = .ok { s with nodes := s.nodes ++ fragmentNode pos b } :=
  push_eq h h.add_le .template pos false s

/-- **A template is read byte by byte as it is read in one step.** -/
theorem templateFrom_eq (h : At content pos t) (s : State) :
    templateFrom content pos pos s
      = .ok ⟨pos + Text.byteLength (t.take (templateScan pos t).taken),
          s.nodes ++ fragmentNodes (templateScan pos t).fragments,
          if (templateScan pos t).closed then ⟨none, s.memory.moduleCall, some '`'⟩
          else s.memory⟩ := by
  have hdollar : '$'.utf8Size = 1 := rfl
  have hbrace : '{'.utf8Size = 1 := rfl
  -- by induction on the length, as what follows a substitution is read like a template of its own
  induction hn : t.length using Nat.strongRecOn generalizing pos t s with
  | ind n ih =>
    rw [templateFrom_fragment h]
    rcases template_cases t with hbody | ⟨b, rest, rfl, hbody⟩ | ⟨b, skipped, tail, rfl, hbody, hskip⟩
    · obtain ⟨htaken, hclosed, hnodes⟩ := templateScan_of_end pos hbody
      have hend := h.pos_add
      have hpush := push_fragment (t := []) (b := t) (by rwa [List.append_nil]) s
      rw [hbody, htaken, hclosed, hnodes, List.take_length, hend] at *
      rw [templateFrom_of_le (Nat.le_refl _), hpush]
      rfl
    · obtain ⟨htaken, hclosed, hnodes⟩ := templateScan_of_backtick pos hbody
      rw [List.append_assoc] at h
      have htick : At content (pos + b.byteLength) ('`' :: rest) := h.append
      rw [hbody, htaken, hclosed, hnodes, List.take_left, templateFrom_of_lt htick.lt_length,
        if_neg (by rw [byte_eq_iff (by decide) htick]; decide),
        if_pos ((byte_eq_iff (by decide) htick).2 rfl), push_fragment h]
      simp only [ok_bind, pure_eq_ok, if_true, Text.byteLength_append, Text.byteLength_cons,
        Text.byteLength_nil, ← Nat.add_assoc]
      rfl
    · obtain ⟨htaken, hclosed, hnodes⟩ := templateScan_of_substitution pos hbody hskip
      have h' : At content pos (b ++ '$' :: '{' :: (skipped ++ tail)) := by
        simpa [List.append_assoc] using h
      have hopen : At content (pos + b.byteLength) ('$' :: '{' :: (skipped ++ tail)) := h'.append
      have hinside : At content (pos + b.byteLength + 2) (skipped ++ tail) :=
        At.append (a := ['$', '{']) hopen
      have hbehind : At content (pos + b.byteLength + 1) ('{' :: (skipped ++ tail)) := hopen.cons
      rw [hbody, htaken, hclosed, hnodes, templateFrom_of_lt hopen.lt_length,
        if_neg (by rw [byte_eq_iff (by decide) hopen]; decide),
        if_neg (by rw [byte_eq_iff (by decide) hopen]; decide),
        if_pos ⟨(byte_eq_iff (by decide) hopen).2 rfl, (next_byte_iff hopen).2 rfl⟩,
        push_fragment h', ok_bind]
      have hsearch : substitutionEnd content 0 (pos + b.byteLength)
          = substitutionEnd content 1 (pos + b.byteLength + 2) := by
        rw [substitutionEnd_of_lt hopen.lt_length,
          if_neg (by rw [byte_eq_iff (by decide) hopen]; decide),
          if_neg (by rw [byte_eq_iff (by decide) hopen]; decide), substitutionEnd_of_lt hbehind.lt_length,
          if_pos ((byte_eq_iff (by decide) hbehind).2 rfl)]
      obtain ⟨stop, hstop, hle, hplace⟩ := exists_substitutionEnd 0 hinside
      rw [hskip] at hplace
      obtain ⟨next, hnext⟩ : ∃ next, pos + Text.byteLength (b ++ '$' :: '{' :: skipped) = next :=
        ⟨_, rfl⟩
      have hoffset : pos + b.byteLength + 2 + Text.byteLength skipped = next := by
        rw [← hnext]
        simp only [Text.byteLength_append, Text.byteLength_cons, hdollar, hbrace]
        omega
      have htail : At content next tail := hoffset ▸ hinside.append
      have hend := htail.pos_add
      -- behind the substitution the scan goes on at its end, or past the file if nothing closes it
      have hgoesOn (s : State) :
          templateFrom content (min (stop + 1) (bytes content).length) (stop + 1) s
            = templateFrom content next next s := by
        rw [length_bytes]
        rcases hplace with hplace | ⟨rfl, hplace⟩
        · rw [hoffset] at hplace
          rw [hplace, Nat.min_eq_left (by omega)]
        · have hlast : next = content.byteLength := hend
          rw [hplace, Nat.min_eq_right (Nat.le_succ _), hlast, templateFrom_of_le (Nat.le_succ _),
            templateFrom_of_le (Nat.le_refl _)]
      have hless : List.length tail < n := by
        rw [← hn]
        simp only [List.length_append, List.length_cons]
        omega
      rw [hsearch, hstop, ok_bind, if_pos (by omega), hgoesOn, ih _ hless htail _ rfl, hnext,
        List.take_length_add_append, Text.byteLength_append, ← Nat.add_assoc, hnext,
        List.append_assoc]

theorem template_eq (h : At content s.pos ('`' :: t)) :
    template content s = .ok (s.after '`' t (Source.template [] s.memory s.pos t)) := by
  have hinside : At content (s.pos + 1) t := h.cons
  rw [template, templateFrom_eq hinside]
  rfl

/-! ### Text between tags -/

theorem childText_eq {text : Text} (h : At content s.pos t)
    (htext : t.takeWhile (!endsChildText ·) = text) :
    childText content s
      = .ok ⟨s.pos + text.byteLength,
          s.nodes ++ Node.ifAny ⟨.string, text.trim, s.pos, s.pos + text.byteLength,
            s.pos + (text.byteLength - text.trimStart.byteLength), false⟩,
          s.memory⟩ := by
  have hsplit : At content s.pos (text ++ t.dropWhile (!endsChildText ·)) := by
    rwa [← htext, List.takeWhile_append_dropWhile]
  obtain ⟨lead, trail, htrim, hlead, -, -⟩ := Text.trim_split text
  have hinside : At content (s.pos + lead.byteLength)
      (text.trim ++ (trail ++ t.dropWhile (!endsChildText ·))) := by
    refine At.append (a := lead) ?_
    rw [htrim] at hsplit
    simpa [List.append_assoc] using hsplit
  have hpush := push_eq hinside hsplit.add_le .string s.pos false s
  rw [childText, h.rest_eq, ok_bind, offsetOf_find? h, htext]
  simp only [hsplit.slice, ok_bind, ← hlead, hpush]
  split
  case isTrue hempty => simp [Node.ifAny, hempty]
  case isFalse => rfl

end CodeProse.Source.Descent
