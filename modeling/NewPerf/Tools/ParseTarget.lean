import NewPerf.Lib.Strtoul
import NewPerf.Tools.Nvme

/-!
# Target names: `parse_target`

A target is named by `<bus>:<device>.<function>,<namespace-id>`.  `parse_target` leaves each
field to `strtoul` and checks its value and what follows it.  `strtoul` knows more ways to
write a number than the documented one, so a field may also carry white space, a sign or
the mark `0x`; `Spelled` is what is accepted, `Documented` what should be.
-/

namespace NewPerf.Tools

open NewPerf.Lib.Strtoul

/-- `parse_ulong_field`; the result is the value and the new position.  A delimiter of `'\0'`
is `none`. -/
def parseUlongField (p : List Char) (base max : Nat) (delimiter : Option Char) :
    Option (Nat × List Char) :=
  let parsed := strtoul base p
  if parsed.outOfRange = true ∨ parsed.rest.length = p.length ∨ parsed.value > max then none
  else
    match delimiter with
    | some delimiter =>
        match parsed.rest with
        | [] => none
        | c :: rest => if c ≠ delimiter then none else some (parsed.value, rest)
    | none => if parsed.rest ≠ [] then none else some (parsed.value, parsed.rest)

/-- The four numbers of a target. -/
structure Target where
  bus : Nat
  dev : Nat
  func : Nat
  nsid : Nat
  deriving DecidableEq, Repr

/-- The structure `parse_target` returns: zeroed by `calloc`, then the four fields set. -/
def Target.controller (target : Target) : ControllerData :=
  { bus := UInt16.ofNat target.bus
    dev := UInt16.ofNat target.dev
    func := UInt16.ofNat target.func
    nsid := UInt16.ofNat target.nsid }

/-- `parse_target`, with a `calloc` that succeeds. -/
def parseTarget (filename : List Char) : Option ControllerData := do
  let (bus, p) ← parseUlongField filename 16 65535 (some ':')
  let (dev, p) ← parseUlongField p 16 31 (some '.')
  let (func, p) ← parseUlongField p 16 7 (some ',')
  let (nsid, _) ← parseUlongField p 10 65535 none
  if nsid = 0 then none else some (Target.controller { bus, dev, func, nsid })

/-! ## Fields -/

/-- The check `errno != 0 || end == *p || parsed > max`. -/
def Refused (p : List Char) (base max : Nat) : Prop :=
  (strtoul base p).outOfRange = true ∨ (strtoul base p).rest.length = p.length ∨
    (strtoul base p).value > max

instance (p : List Char) (base max : Nat) : Decidable (Refused p base max) :=
  inferInstanceAs (Decidable (_ ∨ _ ∨ _))

theorem parseUlongField_eq (p : List Char) (base max : Nat) (delimiter : Option Char) :
    parseUlongField p base max delimiter =
      if Refused p base max then none
      else
        match delimiter with
        | some delimiter =>
            match (strtoul base p).rest with
            | [] => none
            | c :: rest => if c ≠ delimiter then none else some ((strtoul base p).value, rest)
        | none =>
            if (strtoul base p).rest ≠ [] then none
            else some ((strtoul base p).value, (strtoul base p).rest) := rfl

/-- What passes the check begins with a spelling of a value in range. -/
theorem spelling_of_not_refused {p : List Char} {base max : Nat} (h : ¬ Refused p base max) :
    ∃ x, p = x ++ (strtoul base p).rest ∧ Spelling base x (strtoul base p).value ∧
      (strtoul base p).value ≤ max := by
  simp only [Refused, not_or, Bool.not_eq_true, Nat.not_lt] at h
  obtain ⟨hFits, hMoved, hMax⟩ := h
  obtain ⟨x, hp, hSpelling⟩ := spelling_of_strtoul hFits hMoved
  exact ⟨x, hp, hSpelling, hMax⟩

theorem not_refused_of_spelling {x rest : List Char} {base max value : Nat} (hBase : base ≤ 36)
    (hSpelling : Spelling base x value) (hEnds : Ends base rest) (hMax : value ≤ max) :
    ¬ Refused (x ++ rest) base max := by
  have hPos := List.length_pos_of_ne_nil hSpelling.ne_nil
  rw [Refused, strtoul_spelling hBase hSpelling hEnds, List.length_append]
  simp only [Bool.false_eq_true, false_or]
  omega

/-- A field that is followed by its delimiter. -/
theorem parseUlongField_delimited {p rest : List Char} {base max value : Nat} {delimiter : Char}
    (hBase : base ≤ 36) (hEnds : ∀ rest, Ends base (delimiter :: rest)) :
    parseUlongField p base max (some delimiter) = some (value, rest) ↔
      ∃ x, p = x ++ delimiter :: rest ∧ Spelling base x value ∧ value ≤ max := by
  rw [parseUlongField_eq]
  constructor
  · intro h
    split at h
    · cases h
    rename_i hOk
    obtain ⟨x, hp, hSpelling, hMax⟩ := spelling_of_not_refused hOk
    dsimp only at h
    split at h
    · cases h
    · rename_i c rest' hRest
      split at h
      · cases h
      · rename_i hSame
        rw [not_not] at hSame
        rw [Option.some.injEq, Prod.mk.injEq] at h
        obtain ⟨rfl, rfl⟩ := h
        rw [hRest, hSame] at hp
        exact ⟨x, hp, hSpelling, hMax⟩
  · rintro ⟨x, rfl, hSpelling, hMax⟩
    rw [if_neg (not_refused_of_spelling hBase hSpelling (hEnds rest) hMax),
      strtoul_spelling hBase hSpelling (hEnds rest)]
    simp

/-- The last field. -/
theorem parseUlongField_last {p rest : List Char} {base max value : Nat} (hBase : base ≤ 36) :
    parseUlongField p base max none = some (value, rest) ↔
      rest = [] ∧ Spelling base p value ∧ value ≤ max := by
  rw [parseUlongField_eq]
  constructor
  · intro h
    split at h
    · cases h
    rename_i hOk
    obtain ⟨x, hp, hSpelling, hMax⟩ := spelling_of_not_refused hOk
    dsimp only at h
    split at h
    · cases h
    · rename_i hEnd
      rw [not_not] at hEnd
      rw [Option.some.injEq, Prod.mk.injEq] at h
      obtain ⟨rfl, rfl⟩ := h
      rw [hEnd, List.append_nil] at hp
      subst hp
      exact ⟨hEnd, hSpelling, hMax⟩
  · rintro ⟨rfl, hSpelling, hMax⟩
    have hEnds : Ends base [] := nofun
    have hOk := not_refused_of_spelling hBase hSpelling hEnds hMax
    have hParsed := strtoul_spelling hBase hSpelling hEnds
    rw [List.append_nil] at hOk hParsed
    rw [if_neg hOk, hParsed]
    simp

/-! ## Targets -/

/-- The texts of the four fields. -/
structure Fields where
  bus : List Char
  dev : List Char
  func : List Char
  nsid : List Char

def Fields.text (f : Fields) : List Char :=
  f.bus ++ ':' :: (f.dev ++ '.' :: (f.func ++ ',' :: f.nsid))

/-- The numbers are such that a target may have. -/
structure Target.InRange (target : Target) : Prop where
  bus : target.bus ≤ 0xffff
  dev : target.dev ≤ 31
  func : target.func ≤ 7
  nsid_pos : 1 ≤ target.nsid
  nsid_le : target.nsid ≤ 65535

/-- Each field is a number as `strtoul` reads it. -/
structure Spelled (f : Fields) (target : Target) : Prop where
  bus : Spelling 16 f.bus target.bus
  dev : Spelling 16 f.dev target.dev
  func : Spelling 16 f.func target.func
  nsid : Spelling 10 f.nsid target.nsid
  inRange : target.InRange

/-- Each field consists of digits. -/
structure Fields.Plain (f : Fields) : Prop where
  bus : Digits 16 f.bus
  dev : Digits 16 f.dev
  func : Digits 16 f.func
  nsid : Digits 10 f.nsid

/-- The documented form: digits, with values in range. -/
structure Documented (f : Fields) (target : Target) : Prop where
  plain : f.Plain
  bus : target.bus = numeral 16 f.bus
  dev : target.dev = numeral 16 f.dev
  func : target.func = numeral 16 f.func
  nsid : target.nsid = numeral 10 f.nsid
  inRange : target.InRange

private theorem ends_delimiter {base : Nat} {d : Char} (hDigit : isDigit base d = false)
    (hx : d ≠ 'x' ∧ d ≠ 'X') (rest : List Char) : Ends base (d :: rest) := by
  intro c hc
  obtain rfl := Option.some.inj hc
  exact ⟨hDigit, hx⟩

theorem ends_colon : ∀ rest, Ends 16 (':' :: rest) := ends_delimiter (by decide) (by decide)

theorem ends_dot : ∀ rest, Ends 16 ('.' :: rest) := ends_delimiter (by decide) (by decide)

theorem ends_comma : ∀ rest, Ends 16 (',' :: rest) := ends_delimiter (by decide) (by decide)

/-- What `parse_target` accepts, and what it returns. -/
theorem parseTarget_iff {s : List Char} {c : ControllerData} :
    parseTarget s = some c ↔
      ∃ f target, s = f.text ∧ Spelled f target ∧ c = target.controller := by
  constructor
  · intro h
    obtain ⟨⟨bus, p₁⟩, hBus, h₁⟩ := Option.bind_eq_some_iff.mp h
    obtain ⟨⟨dev, p₂⟩, hDev, h₂⟩ := Option.bind_eq_some_iff.mp h₁
    obtain ⟨⟨func, p₃⟩, hFunc, h₃⟩ := Option.bind_eq_some_iff.mp h₂
    obtain ⟨⟨nsid, p₄⟩, hNsid, h₄⟩ := Option.bind_eq_some_iff.mp h₃
    clear h h₁ h₂ h₃
    obtain ⟨x, rfl, hx, hBusMax⟩ := (parseUlongField_delimited (by decide) ends_colon).mp hBus
    obtain ⟨y, rfl, hy, hDevMax⟩ := (parseUlongField_delimited (by decide) ends_dot).mp hDev
    obtain ⟨z, rfl, hz, hFuncMax⟩ := (parseUlongField_delimited (by decide) ends_comma).mp hFunc
    obtain ⟨-, hw, hNsidMax⟩ := (parseUlongField_last (by decide)).mp hNsid
    dsimp only at h₄
    split at h₄
    · cases h₄
    · rename_i hZero
      rw [Option.some.injEq] at h₄
      exact ⟨⟨x, y, z, p₃⟩, ⟨bus, dev, func, nsid⟩, rfl,
        ⟨hx, hy, hz, hw, ⟨hBusMax, hDevMax, hFuncMax, Nat.pos_of_ne_zero hZero, hNsidMax⟩⟩,
        h₄.symm⟩
  · rintro ⟨f, target, rfl, hSpelled, rfl⟩
    have hRange := hSpelled.inRange
    have hBus : parseUlongField f.text 16 65535 (some ':') =
        some (target.bus, f.dev ++ '.' :: (f.func ++ ',' :: f.nsid)) :=
      (parseUlongField_delimited (by decide) ends_colon).mpr
        ⟨f.bus, rfl, hSpelled.bus, hRange.bus⟩
    have hDev : parseUlongField (f.dev ++ '.' :: (f.func ++ ',' :: f.nsid)) 16 31 (some '.') =
        some (target.dev, f.func ++ ',' :: f.nsid) :=
      (parseUlongField_delimited (by decide) ends_dot).mpr
        ⟨f.dev, rfl, hSpelled.dev, hRange.dev⟩
    have hFunc : parseUlongField (f.func ++ ',' :: f.nsid) 16 7 (some ',') =
        some (target.func, f.nsid) :=
      (parseUlongField_delimited (by decide) ends_comma).mpr
        ⟨f.func, rfl, hSpelled.func, hRange.func⟩
    have hNsid : parseUlongField f.nsid 10 65535 none = some (target.nsid, []) :=
      (parseUlongField_last (by decide)).mpr ⟨rfl, hSpelled.nsid, hRange.nsid_le⟩
    refine Option.bind_eq_some_iff.mpr ⟨_, hBus, ?_⟩
    refine Option.bind_eq_some_iff.mpr ⟨_, hDev, ?_⟩
    refine Option.bind_eq_some_iff.mpr ⟨_, hFunc, ?_⟩
    refine Option.bind_eq_some_iff.mpr ⟨_, hNsid, ?_⟩
    have hNonzero : target.nsid ≠ 0 := Nat.ne_of_gt hRange.nsid_pos
    exact if_neg hNonzero

/-- A string is cut into fields in one way only. -/
theorem Fields.text_inj {f f' : Fields} {target target' : Target} (h : Spelled f target)
    (h' : Spelled f' target') (hText : f.text = f'.text) : f = f' := by
  -- `strtoul` stops at the same place in equal strings.
  have hCut : ∀ {base : Nat} {x x' t t' : List Char} {v v' : Nat}, base ≤ 36 →
      Spelling base x v → Spelling base x' v' → Ends base t → Ends base t' →
      x ++ t = x' ++ t' → x = x' ∧ t = t' := by
    intro base x x' t t' v v' hBase hx hx' ht ht' hEq
    have hRest := strtoul_spelling hBase hx ht
    rw [hEq, strtoul_spelling hBase hx' ht', Conversion.mk.injEq] at hRest
    obtain ⟨-, -, rfl⟩ := hRest
    exact ⟨List.append_cancel_right hEq, rfl⟩
  obtain ⟨hBus, hDevs⟩ := hCut (by decide) h.bus h'.bus (ends_colon _) (ends_colon _) hText
  obtain ⟨hDev, hFuncs⟩ := hCut (by decide) h.dev h'.dev (ends_dot _) (ends_dot _)
    (List.cons.inj hDevs).2
  obtain ⟨hFunc, hNsids⟩ := hCut (by decide) h.func h'.func (ends_comma _) (ends_comma _)
    (List.cons.inj hFuncs).2
  obtain ⟨bus, dev, func, nsid⟩ := f
  rw [Fields.mk.injEq]
  exact ⟨hBus, hDev, hFunc, (List.cons.inj hNsids).2⟩

/-- The documented form is accepted. -/
theorem Documented.spelled {f : Fields} {target : Target} (h : Documented f target) :
    Spelled f target := by
  have hRange := h.inRange
  have hBus := hRange.bus
  have hDev := hRange.dev
  have hFunc := hRange.func
  have hNsid := hRange.nsid_le
  rw [h.bus] at hBus
  rw [h.dev] at hDev
  rw [h.func] at hFunc
  rw [h.nsid] at hNsid
  refine ⟨?_, ?_, ?_, ?_, hRange⟩
  · rw [h.bus]
    exact h.plain.bus.spelling (by omega)
  · rw [h.dev]
    exact h.plain.dev.spelling (by omega)
  · rw [h.func]
    exact h.plain.func.spelling (by omega)
  · rw [h.nsid]
    exact h.plain.nsid.spelling (by omega)

/-- Fields that are spelled in digits are in the documented form. -/
theorem Spelled.documented {f : Fields} {target : Target} (h : Spelled f target)
    (hPlain : f.Plain) : Documented f target :=
  ⟨hPlain, h.bus.eq_numeral (by decide) hPlain.bus, h.dev.eq_numeral (by decide) hPlain.dev,
    h.func.eq_numeral (by decide) hPlain.func, h.nsid.eq_numeral (by decide) hPlain.nsid,
    h.inRange⟩

/-! ## The grammar -/

/-- `parse_target` accepts the string exactly when it has the documented form, and returns its
numbers. -/
structure TargetGrammar (s : List Char) : Prop where
  accepts : parseTarget s ≠ none ↔ ∃ f target, s = f.text ∧ Documented f target
  numbers : ∀ f target c, s = f.text → Documented f target → parseTarget s = some c →
    c.bus.toNat = target.bus ∧ c.dev.toNat = target.dev ∧ c.func.toNat = target.func ∧
      c.nsid.toNat = target.nsid

/-- Four numbers in range, not all of them written in digits alone: there is white space or
a sign before one of them, or a mark `0x`. -/
def Loose (s : List Char) : Prop :=
  ∃ f target, s = f.text ∧ Spelled f target ∧ ¬ f.Plain

/-- The grammar is the documented one exactly for the strings that are not loose. -/
theorem targetGrammar_iff (s : List Char) : TargetGrammar s ↔ ¬ Loose s := by
  constructor
  · rintro hGrammar ⟨f, target, hText, hSpelled, hPlain⟩
    have hParsed : parseTarget s = some target.controller :=
      parseTarget_iff.mpr ⟨f, target, hText, hSpelled, rfl⟩
    obtain ⟨f', target', hText', hDocumented⟩ := hGrammar.accepts.mp (by simp [hParsed])
    have hSame := Fields.text_inj hSpelled hDocumented.spelled (hText.symm.trans hText')
    rw [hSame] at hPlain
    exact hPlain hDocumented.plain
  · intro hStrict
    constructor
    · constructor
      · intro hSome
        obtain ⟨c, hParsed⟩ := Option.ne_none_iff_exists'.mp hSome
        obtain ⟨f, target, hText, hSpelled, -⟩ := parseTarget_iff.mp hParsed
        by_cases hPlain : f.Plain
        · exact ⟨f, target, hText, hSpelled.documented hPlain⟩
        · exact absurd ⟨f, target, hText, hSpelled, hPlain⟩ hStrict
      · rintro ⟨f, target, hText, hDocumented⟩
        rw [parseTarget_iff.mpr ⟨f, target, hText, hDocumented.spelled, rfl⟩]
        simp
    · intro f target c hText hDocumented hParsed
      rw [parseTarget_iff.mpr ⟨f, target, hText, hDocumented.spelled, rfl⟩,
        Option.some.injEq] at hParsed
      subst hParsed
      have hRange := hDocumented.inRange
      have hFits : ∀ v, v ≤ 65535 → (UInt16.ofNat v).toNat = v := by
        intro v hv
        rw [UInt16.toNat_ofNat', Nat.mod_eq_of_lt (by omega)]
      exact ⟨hFits _ hRange.bus, hFits _ (Nat.le_trans hRange.dev (by decide)),
        hFits _ (Nat.le_trans hRange.func (by decide)), hFits _ hRange.nsid_le⟩

example : parseTarget "ff:1f.7,65535".toList =
    some { bus := 0xff, dev := 0x1f, func := 7, nsid := 65535 } := by decide +kernel

example : parseTarget "05:00.0,65536".toList = none := by decide +kernel

/-- The documented example after a space. -/
def spacedTarget : List Char := [' ', '0', '5', ':', '0', '0', '.', '0', ',', '1']

/-- It is accepted, though a target does not begin with white space. -/
theorem targetGrammar_spaced_false : ¬ TargetGrammar spacedTarget := by
  intro hGrammar
  have hParsed : parseTarget spacedTarget =
      some { bus := 5, dev := 0, func := 0, nsid := 1 } := by decide +kernel
  obtain ⟨f, target, hText, hDocumented⟩ := hGrammar.accepts.mp (by simp [hParsed])
  obtain ⟨d, digits, hBus⟩ := List.exists_cons_of_ne_nil hDocumented.plain.bus.ne_nil
  have hDigit := hDocumented.plain.bus.isDigit d (by simp [hBus])
  obtain rfl : ' ' = d := by
    rw [Fields.text, hBus] at hText
    exact (List.cons.inj hText).1
  revert hDigit
  decide

end NewPerf.Tools
