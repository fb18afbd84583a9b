import Mathlib.Algebra.GroupWithZero.Nat
import Mathlib.Data.List.Induction
import ClusterOverlay.Address

/-!
# Written addresses and known hosts

Every address has exactly one written form, `Ipv4.parse?_eq_some_iff`: what is read as an
address is its text and nothing else.

A host that spells an address has that address, whatever the system knows.  Any other has the
first IPv4 address that the system gives for it, `Resolver.address?_eq_some_iff`, and has none if
the system gives none.
-/

namespace ClusterOverlay

namespace Ipv4

/-! ## Octets -/

theorem digitsValue_concat (earlier : List Char) (last : Char) :
    digitsValue (earlier ++ [last]) =
      10 * digitsValue earlier + (last.toNat - '0'.toNat) := by
  rw [digitsValue, List.foldl_append, Nat.mul_comm]
  rfl

/-- Digits are those of their value, unless there is a zero in front of others. -/
theorem toDigits_digitsValue {digits : List Char} (any : digits ≠ [])
    (all : ∀ digit ∈ digits, digit.isDigit = true)
    (plain : 1 < digits.length → digits.head? ≠ some '0') :
    Nat.toDigits 10 (digitsValue digits) = digits := by
  induction digits using List.reverseRecOn with
  | nil => exact absurd rfl any
  | append_singleton earlier last inductionHypothesis =>
      have lastDigit := all last (List.mem_append_right _ (List.mem_singleton_self _))
      have lastBounds : 48 ≤ last.toNat ∧ last.toNat ≤ 57 := Char.isDigit_iff_toNat.mp lastDigit
      have small : last.toNat - 48 < 10 := by omega
      have rebuilt : Nat.toDigits 10 (last.toNat - 48) = [last] := by
        rw [Nat.toDigits_of_lt_base small, List.singleton_inj, ← Char.toNat_inj,
          Nat.toNat_digitChar_of_lt_ten small]
        omega
      rw [digitsValue_concat]
      change Nat.toDigits 10 (10 * digitsValue earlier + (last.toNat - 48)) = _
      by_cases alone : earlier = []
      · subst alone
        change Nat.toDigits 10 (0 + (last.toNat - 48)) = [last]
        rw [Nat.zero_add, rebuilt]
      · have several : 1 < (earlier ++ [last]).length := by
          have := List.length_pos_iff.mpr alone
          rw [List.length_append, List.length_singleton]
          omega
        have noZero : earlier.head? ≠ some '0' := by
          obtain ⟨first, later, rfl⟩ := List.exists_cons_of_ne_nil alone
          exact plain several
        have earlierEq : Nat.toDigits 10 (digitsValue earlier) = earlier :=
          inductionHypothesis alone (fun digit mem => all digit (List.mem_append_left _ mem))
            fun _ => noZero
        have positive : 0 < digitsValue earlier := by
          apply Nat.pos_of_ne_zero
          intro zero
          rw [zero] at earlierEq
          exact noZero (earlierEq ▸ rfl)
        rw [← Nat.toDigits_append_toDigits (by decide) positive small, earlierEq, rebuilt]

/-- The digits of an octet are read as the octet, and there is no dot among them. -/
theorem octet?_repr (octet : UInt8) :
    octet? octet.toNat.repr.toList = some octet ∧ '.' ∉ octet.toNat.repr.toList := by
  have all : ∀ number : Fin 256, octet? number.val.repr.toList = some (UInt8.ofNat number) ∧
      '.' ∉ number.val.repr.toList := by
    decide +kernel
  have here := all ⟨octet.toNat, octet.toNat_lt⟩
  rwa [UInt8.ofNat_toNat] at here

/-- An octet is read off its digits and off nothing else. -/
theorem octet?_eq_some_iff {digits : List Char} {octet : UInt8} :
    octet? digits = some octet ↔ digits = octet.toNat.repr.toList := by
  constructor
  · intro read
    unfold octet? at read
    split at read
    · contradiction
    · next shape =>
        simp only [Bool.or_eq_true, List.isEmpty_iff, decide_eq_true_eq, Bool.not_eq_true',
          Bool.not_eq_false, not_or, List.all_eq_true] at shape
        split at read
        · contradiction
        · next plain =>
            split at read
            · next small =>
                cases read
                rw [UInt8.toNat_ofNat_of_lt' small, Nat.toList_repr]
                apply (toDigits_digitsValue shape.1.1 shape.2 ?_).symm
                intro several zero
                simp [several, zero] at plain
            · contradiction
  · rintro rfl
    exact (octet?_repr octet).1

/-! ## Addresses -/

theorem dotted_of_notMem {part : List Char} (plain : '.' ∉ part) : dotted part = [part] := by
  fun_induction dotted part with
  | case1 => rfl
  | case2 rest => exact absurd List.mem_cons_self plain
  | case3 char rest notDot none inductionHypothesis =>
      simp [inductionHypothesis (List.not_mem_of_not_mem_cons plain)] at none
  | case4 char rest notDot first parts parted inductionHypothesis =>
      rw [inductionHypothesis (List.not_mem_of_not_mem_cons plain)] at parted
      cases parted
      rfl

theorem dotted_append {part : List Char} (plain : '.' ∉ part) (rest : List Char) :
    dotted (part ++ '.' :: rest) = part :: dotted rest := by
  induction part with
  | nil => rfl
  | cons char part inductionHypothesis =>
      obtain ⟨here, later⟩ := not_or.mp (mt List.mem_cons.mpr plain)
      rw [List.cons_append, dotted, inductionHypothesis later]
      rintro rfl
      contradiction

theorem dotted_ne_nil (chars : List Char) : dotted chars ≠ [] := by
  fun_induction dotted chars <;> simp

/-- The parts with the dots between them are the whole. -/
theorem intercalate_dotted (chars : List Char) : ['.'].intercalate (dotted chars) = chars := by
  fun_induction dotted chars with
  | case1 => rfl
  | case2 rest inductionHypothesis =>
      obtain ⟨part, parts, parted⟩ := List.exists_cons_of_ne_nil (dotted_ne_nil rest)
      rw [parted, List.intercalate_cons_cons, ← parted, inductionHypothesis]
      rfl
  | case3 char rest notDot none inductionHypothesis => exact absurd none (dotted_ne_nil rest)
  | case4 char rest notDot part parts parted inductionHypothesis =>
      rw [parted] at inductionHypothesis
      cases parts with
      | nil => simpa using inductionHypothesis
      | cons next later => simpa [List.intercalate_cons_cons] using inductionHypothesis

theorem toList_text (address : Ipv4) :
    address.text.toList = address.first.toNat.repr.toList ++ '.' ::
      (address.second.toNat.repr.toList ++ '.' ::
        (address.third.toNat.repr.toList ++ '.' :: address.fourth.toNat.repr.toList)) := by
  have dot : ".".toList = ['.'] := rfl
  simp only [text, String.toList_append, dot, List.append_assoc, List.cons_append,
    List.nil_append]

theorem dotted_text (address : Ipv4) :
    dotted address.text.toList =
      [address.first.toNat.repr.toList, address.second.toNat.repr.toList,
        address.third.toNat.repr.toList, address.fourth.toNat.repr.toList] := by
  rw [toList_text, dotted_append (octet?_repr _).2, dotted_append (octet?_repr _).2,
    dotted_append (octet?_repr _).2, dotted_of_notMem (octet?_repr _).2]

/-- The text of an address is read as the address, and nothing else is. -/
theorem parse?_eq_some_iff {text : String} {address : Ipv4} :
    parse? text = some address ↔ text = address.text := by
  constructor
  · intro read
    have whole := intercalate_dotted text.toList
    unfold parse? at read
    split at read
    · next parted =>
        obtain ⟨first, firstRead, read⟩ := Option.bind_eq_some_iff.mp read
        obtain ⟨second, secondRead, read⟩ := Option.bind_eq_some_iff.mp read
        obtain ⟨third, thirdRead, read⟩ := Option.bind_eq_some_iff.mp read
        obtain ⟨fourth, fourthRead, read⟩ := Option.bind_eq_some_iff.mp read
        cases read
        rw [parted, octet?_eq_some_iff.mp firstRead, octet?_eq_some_iff.mp secondRead,
          octet?_eq_some_iff.mp thirdRead, octet?_eq_some_iff.mp fourthRead] at whole
        rw [← String.toList_inj, toList_text, ← whole]
        simp [List.intercalate_cons_cons]
    · contradiction
  · rintro rfl
    simp only [parse?, dotted_text, (octet?_repr _).1]
    rfl

@[simp]
theorem parse?_text (address : Ipv4) : parse? address.text = some address :=
  parse?_eq_some_iff.mpr rfl

theorem length_le_of_octet? {digits : List Char} {octet : UInt8}
    (read : octet? digits = some octet) : digits.length ≤ 3 := by
  unfold octet? at read
  split at read
  · contradiction
  · next short =>
      simp only [Bool.or_eq_true, not_or, decide_eq_true_eq] at short
      exact Nat.not_lt.mp short.1.2

/-- An address is written as four parts of at most three digits, and three dots. -/
theorem length_text_le (address : Ipv4) : address.text.toList.length ≤ 15 := by
  have short (octet : UInt8) : octet.toNat.repr.toList.length ≤ 3 :=
    length_le_of_octet? (octet?_repr octet).1
  have firstShort := short address.first
  have secondShort := short address.second
  have thirdShort := short address.third
  have fourthShort := short address.fourth
  rw [toList_text]
  simp only [List.length_append, List.length_cons]
  omega

end Ipv4

/-! ## Known hosts -/

theorem HostAddress.v4?_eq_some_iff {host : HostAddress} {address : Ipv4} :
    host.v4? = some address ↔ host = .v4 address := by
  cases host <;> simp [v4?]

theorem HostAddress.v4?_eq_none_iff {host : HostAddress} : host.v4? = none ↔ host = .v6 := by
  cases host <;> simp [v4?]

namespace Resolver

variable {resolver : Resolver} {host : String} {address : Ipv4}

/-- The text of an address needs no system to find the address. -/
@[simp]
theorem address?_text (resolver : Resolver) (address : Ipv4) :
    resolver.address? address.text = some address := by
  rw [address?, Ipv4.parse?_text]

/-- The address of a host is the one that it spells.  If it spells none, it is the first IPv4
address that the system has for the host. -/
theorem address?_eq_some_iff :
    resolver.address? host = some address ↔
      host = address.text ∨
        Ipv4.parse? host = none ∧ ∃ earlier later,
          resolver host = earlier ++ .v4 address :: later ∧ ∀ other ∈ earlier, other = .v6 := by
  unfold address?
  cases spelled : Ipv4.parse? host with
  | some known =>
      obtain rfl := Ipv4.parse?_eq_some_iff.mp spelled
      simp [← Ipv4.parse?_eq_some_iff]
  | none =>
      have other : host ≠ address.text := by
        rintro rfl
        simp at spelled
      simp [List.findSome?_eq_some_iff, HostAddress.v4?_eq_some_iff,
        HostAddress.v4?_eq_none_iff, other]

/-- A host without an address spells none, and the system has no IPv4 address for it. -/
theorem address?_eq_none_iff :
    resolver.address? host = none ↔
      Ipv4.parse? host = none ∧ ∀ known ∈ resolver host, known = .v6 := by
  unfold address?
  cases Ipv4.parse? host with
  | some address => simp
  | none => simp [List.findSome?_eq_none_iff, HostAddress.v4?_eq_none_iff]

/-- A system that knows a single host, to give examples with. -/
def coastal : Resolver :=
  fun host => if host = "harbour" then [.v6, .v4 ⟨10, 0, 0, 3⟩] else []

end Resolver

end ClusterOverlay
