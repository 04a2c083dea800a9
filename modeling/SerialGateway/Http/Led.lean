import SerialGateway.Lwip.MemStr

/-!
This module contains the dispatch of HTTP requests (`uctsk_http.c`) and the scan of a request for the LEDs to
switch on.
-/

open Occurrence

namespace SerialGateway

def cString (s : String) (i : Nat) : UInt8 := (s.toList.map fun c => UInt8.ofNat c.toNat).getD i 0

/--
What the scan leaves behind: the pins it passed to `GPIO_ResetBits`, which switches an LED on, and the
positions it read.
-/
structure LedScan where
  resets : List Nat
  reads : List Nat
  deriving DecidableEq, Repr

def ledPins (c : UInt8) : List Nat :=
  (if c = 0x31 then [2] else [])
    ++ (if c = 0x32 then [3] else [])
    ++ (if c = 0x33 then [4] else [])
    ++ (if c = 0x34 then [5] else [])

def ledPass (pbData : Nat → UInt8) (i : Nat) : Nat × List Nat × List Nat :=
  if pbData (i + 1) = 0x6C then
    if pbData (i + 2) = 0x65 then
      if pbData (i + 3) = 0x64 then
        (i + 5, ledPins (pbData (i + 5)), [i + 1, i + 2, i + 3, i + 5])
      else
        (i + 3, [], [i + 1, i + 2, i + 3])
    else
      (i + 2, [], [i + 1, i + 2])
  else
    (i + 1, [], [i + 1])

def ledScan (pbData : Nat → UInt8) : Nat → Nat → Option LedScan
  | 0, _ => none
  | fuel + 1, i =>
    if pbData i ≠ 0x20 then
      let (next, resets, reads) := ledPass pbData i
      match ledScan pbData fuel next with
      | none => none
      | some scan =>
        some { resets := resets ++ scan.resets, reads := i :: reads ++ scan.reads }
    else
      some { resets := [], reads := [i] }

/--
What becomes of a request. `sets` are the pins passed to `GPIO_SetBits` before the scan.
-/
inductive HttpRun where
  | adc
  | led (sets : List Nat) (scan : LedScan)
  | get
  | ignored

/--
`__Handler_HTTP_LED`, up to the page that it sends back.
-/
def handlerHttpLed (ledWebFlag : UInt8) (pbData : Nat → UInt8) (fuel : Nat) : Option (HttpRun × UInt8) :=
  let sets := if ledWebFlag = 1 then [2, 3, 4, 5] else []
  match ledScan pbData fuel 15 with
  | none => none
  | some scan => some (.led sets scan, 0)

/--
`vHandler_HTTP` for the data of the first buffer of a request, with `led_web_flag` before and after it.
-/
def vHandlerHttp (ledWebFlag : UInt8) (pbData : Nat → UInt8) (fuel : Nat) : Option (HttpRun × UInt8) :=
  if strncmp pbData (cString "GET /STM32F107ADC") 0 17 = 0 then
    some (.adc, ledWebFlag)
  else
    let ledWebFlag := if strncmp pbData (cString "GET /method=get") 0 15 = 0 then 1 else 0
    if ledWebFlag ≠ 0 ∨ strncmp pbData (cString "GET /STM32F107LED") 0 17 = 0 then
      handlerHttpLed ledWebFlag pbData fuel
    else if strncmp pbData (cString "GET ") 0 4 = 0 then
      some (.get, ledWebFlag)
    else
      some (.ignored, ledWebFlag)

def ToLed (pbData : Nat → UInt8) : Prop :=
  strncmp pbData (cString "GET /STM32F107ADC") 0 17 ≠ 0
    ∧ (strncmp pbData (cString "GET /method=get") 0 15 = 0
      ∨ strncmp pbData (cString "GET /STM32F107LED") 0 17 = 0)

def IsLed (pbData : Nat → UInt8) (p : Nat) : Prop :=
  pbData p = 0x6C ∧ pbData (p + 1) = 0x65 ∧ pbData (p + 2) = 0x64

def Asks (pbData : Nat → UInt8) (e k : Nat) : Prop :=
  ∃ p, 16 ≤ p ∧ p + 4 < e ∧ IsLed pbData p ∧ pbData (p + 3) ≠ 0x20 ∧ (pbData (p + 4)).toNat = 0x30 + k

/--
The handler returns, has read nothing from position `len` on in its scan, and has switched on the LEDs that a
target that ends in the buffer asks for. LED `k` is at pin `k + 1`.
-/
def LedExact (ledWebFlag : UInt8) (pbData : Nat → UInt8) (len : UInt16) : Prop :=
  ∃ fuel sets scan ledWebFlag',
    vHandlerHttp ledWebFlag pbData fuel = some (.led sets scan, ledWebFlag')
      ∧ (∀ a ∈ scan.reads, a < len.toNat)
      ∧ ∀ e, FirstIn (fun a => pbData a = 0x20) 4 len.toNat (some e) →
          ∀ k, 1 ≤ k → k ≤ 4 → (k + 1 ∈ scan.resets ↔ Asks pbData e k)

def unitRest (pbData : Nat → UInt8) (p : Nat) : Nat :=
  if pbData p ≠ 0x6C then 0
  else if pbData (p + 1) ≠ 0x65 then 1
  else if pbData (p + 2) ≠ 0x64 then 2
  else 4

def taken (pbData : Nat → UInt8) : Nat → Nat
  | 0 => 0
  | p + 1 =>
    if p < 16 then
      0
    else
      match taken pbData p with
      | 0 => unitRest pbData p
      | n + 1 => n

structure FreeLed (pbData : Nat → UInt8) (p : Nat) : Prop where
  behind : 16 ≤ p
  isLed : IsLed pbData p
  free : taken pbData p = 0

def EndsScan (pbData : Nat → UInt8) (s : Nat) : Prop :=
  pbData s = 0x20 ∧ ∀ p, p + 3 = s → ¬ FreeLed pbData p

def AsksFree (pbData : Nat → UInt8) (s k : Nat) : Prop :=
  ∃ p, p + 4 < s ∧ FreeLed pbData p ∧ (pbData (p + 4)).toNat = 0x30 + k

def Covers (pbData : Nat → UInt8) (q p : Nat) : Prop :=
  pbData q = 0x6C
    ∧ (p = q + 1
      ∨ pbData (q + 1) = 0x65 ∧ (p = q + 2 ∨ pbData (q + 2) = 0x64 ∧ (p = q + 3 ∨ p = q + 4)))

def Clear (pbData : Nat → UInt8) (p : Nat) : Prop := ∀ q, 16 ≤ q → ¬ Covers pbData q p

def AsksAt (pbData : Nat → UInt8) (e k p : Nat) : Prop :=
  16 ≤ p ∧ p + 4 < e ∧ IsLed pbData p ∧ (pbData (p + 4)).toNat = 0x30 + k

/--
The target ends in the buffer, not directly behind a `led`, and asks for each of its LEDs at least once where
no `l` covers the `led`.
-/
def Legible (pbData : Nat → UInt8) (len : UInt16) : Prop :=
  ∃ e, FirstIn (fun a => pbData a = 0x20) 15 len.toNat (some e)
    ∧ (∀ p, 16 ≤ p → p + 3 = e → ¬ IsLed pbData p)
    ∧ ∀ k, 1 ≤ k → k ≤ 4 → Asks pbData e k → ∃ p, AsksAt pbData e k p ∧ Clear pbData p

/--
The target does not end in the buffer; or it ends directly behind a clear `led`, and nothing in the buffer
ends the scan behind it or a digit there stands for an LED that is not asked for; or it asks for an LED with
covered `led`s only, and what covers them is clear.
-/
def Garbled (pbData : Nat → UInt8) (len : UInt16) : Prop :=
  (∀ a, 15 ≤ a → a < len.toNat → pbData a ≠ 0x20)
    ∨ ∃ e, FirstIn (fun a => pbData a = 0x20) 15 len.toNat (some e)
        ∧ ((∃ p, 16 ≤ p ∧ p + 3 = e ∧ IsLed pbData p ∧ Clear pbData p
              ∧ ((∀ a, e < a → a < len.toNat → pbData a ≠ 0x20)
                ∨ ∃ k, 1 ≤ k ∧ k ≤ 4 ∧ (pbData (e + 1)).toNat = 0x30 + k ∧ ¬ Asks pbData e k))
          ∨ (∀ p, 16 ≤ p → p + 3 = e → ¬ IsLed pbData p)
            ∧ ∃ k, 1 ≤ k ∧ k ≤ 4 ∧ Asks pbData e k
              ∧ ∀ p, AsksAt pbData e k p → ∃ q, 16 ≤ q ∧ Covers pbData q p ∧ Clear pbData q)

def LedScannable (pbData : Nat → UInt8) (len : UInt16) : Prop :=
  ∃ s, FirstIn (EndsScan pbData) 15 len.toNat (some s)
    ∧ ∀ e, FirstIn (fun a => pbData a = 0x20) 4 len.toNat (some e) → ∀ k, 1 ≤ k → k ≤ 4 →
        (Asks pbData e k → AsksFree pbData s k)
          ∧ ∀ p, e < p + 4 → p + 4 < s → FreeLed pbData p → (pbData (p + 4)).toNat = 0x30 + k →
              Asks pbData e k

variable {pbData : Nat → UInt8} {p q i s fuel : Nat}

theorem unitRest_le (pbData : Nat → UInt8) (p : Nat) : unitRest pbData p ≤ 4 := by
  unfold unitRest
  split
  . omega
  . split
    . omega
    . split <;> omega

theorem unitRest_of_isLed (h : IsLed pbData p) : unitRest pbData p = 4 := by
  unfold unitRest
  simp [h.1, h.2.1, h.2.2]

theorem isLed_of_unitRest (h : 3 ≤ unitRest pbData p) : IsLed pbData p := by
  unfold unitRest at h
  split at h
  . omega
  . split at h
    . omega
    . split at h
      . omega
      . next hl he hd =>
        exact ⟨Decidable.not_not.mp hl, Decidable.not_not.mp he, Decidable.not_not.mp hd⟩

theorem ne_space_of_lt_unitRest {pbData : Nat → UInt8} {p j : Nat} (hj : j < 3) (h : j < unitRest pbData p)
    : pbData (p + j) ≠ 0x20 := by
  unfold unitRest at h
  split at h
  . omega
  . next hl =>
    have hl := Decidable.not_not.mp hl
    match j with
    | 0 => simp [hl]
    | 1 =>
      split at h
      . omega
      . next he =>
        have he := Decidable.not_not.mp he
        simp [he]
    | 2 =>
      split at h
      . omega
      . split at h
        . omega
        . next hd =>
          have hd := Decidable.not_not.mp hd
          simp [hd]

theorem taken_succ_of_pos {n : Nat} (hp : 16 ≤ p) (h : taken pbData p = n + 1)
    : taken pbData (p + 1) = n := by
  have hge : ¬ p < 16 := by omega
  simp [taken, hge, h]

theorem taken_succ_of_zero (hp : 16 ≤ p) (h : taken pbData p = 0)
    : taken pbData (p + 1) = unitRest pbData p := by
  have hge : ¬ p < 16 := by omega
  simp [taken, hge, h]

theorem taken_add (hp : 16 ≤ p) (h : taken pbData p = 0) {j : Nat} (hj : j ≤ unitRest pbData p)
    : taken pbData (p + 1 + j) = unitRest pbData p - j := by
  induction j with
  | zero => exact taken_succ_of_zero hp h
  | succ j ih =>
    have hprev : taken pbData (p + 1 + j) = (unitRest pbData p - (j + 1)) + 1 := by
      rw [ih (by omega)]
      omega
    apply taken_succ_of_pos (p := p + 1 + j)
    . omega
    . exact hprev

theorem exists_unit_of_taken {n : Nat} (h : taken pbData q = n + 1)
    : ∃ p, 16 ≤ p ∧ p < q ∧ taken pbData p = 0 ∧ p + 1 + unitRest pbData p = q + n + 1 := by
  induction q generalizing n with
  | zero => cases h
  | succ q ih =>
    unfold taken at h
    split at h
    . cases h
    . next hge =>
      split at h
      . next hfree => exact ⟨q, by omega, by omega, hfree, by omega⟩
      . next m hm =>
        rcases ih hm with ⟨p, hp, hlt, hfree, hunit⟩
        exact ⟨p, hp, by omega, hfree, by omega⟩

theorem endsScan_iff : EndsScan pbData s ↔ pbData s = 0x20 ∧ taken pbData (s + 1) = 0 := by
  apply and_congr_right
  intro hspace
  constructor
  . intro hbehind
    cases hn : taken pbData (s + 1) with
    | zero => rfl
    | succ n =>
      rcases exists_unit_of_taken hn with ⟨p, hp, hlt, hfree, hunit⟩
      have hle := unitRest_le pbData p
      rcases Nat.lt_or_ge (s - p) 3 with hlt' | hge
      . have hne : pbData (p + (s - p)) ≠ 0x20 := ne_space_of_lt_unitRest hlt' (by omega)
        have hpos : p + (s - p) = s := by omega
        rw [hpos] at hne
        exact absurd hspace hne
      . have hled : IsLed pbData p := isLed_of_unitRest (by omega)
        exact absurd ⟨hp, hled, hfree⟩ (hbehind p (by omega))
  . rintro htaken p rfl hled
    have hrest := unitRest_of_isLed hled.isLed
    have hadd := taken_add hled.behind hled.free (j := 3) (by omega)
    rw [hrest] at hadd
    have heq : p + 1 + 3 = p + 3 + 1 := by omega
    rw [heq, htaken] at hadd
    cases hadd

theorem ledPass_next (pbData : Nat → UInt8) (i : Nat)
    : (ledPass pbData i).1 = i + 1 + unitRest pbData (i + 1) := by
  unfold ledPass unitRest
  by_cases hl : pbData (i + 1) = 0x6C
  . by_cases he : pbData (i + 2) = 0x65
    . by_cases hd : pbData (i + 3) = 0x64 <;> simp [hl, he, hd]
    . simp [hl, he]
  . simp [hl]

theorem mem_ledPass_resets {pin : Nat}
    : pin ∈ (ledPass pbData i).2.1 ↔ IsLed pbData (i + 1) ∧ pin ∈ ledPins (pbData (i + 5)) := by
  unfold ledPass IsLed
  by_cases hl : pbData (i + 1) = 0x6C
  . by_cases he : pbData (i + 2) = 0x65
    . by_cases hd : pbData (i + 3) = 0x64 <;> simp [hl, he, hd]
    . simp [hl, he]
  . simp [hl]

theorem le_of_mem_ledPass_reads {a : Nat} (h : a ∈ (ledPass pbData i).2.2)
    : a ≤ (ledPass pbData i).1 := by
  unfold ledPass at h ⊢
  split at h
  . split at h
    . split at h
      . next hl he hd =>
        simp only [hl, he, hd, ↓reduceIte, List.mem_cons, List.not_mem_nil, or_false] at h ⊢
        omega
      . next hl he hd =>
        simp only [hl, he, hd, ↓reduceIte, List.mem_cons, List.not_mem_nil, or_false] at h ⊢
        omega
    . next hl he =>
      simp only [hl, he, ↓reduceIte, List.mem_cons, List.not_mem_nil, or_false] at h ⊢
      omega
  . next hl =>
    simp only [hl, ↓reduceIte, List.mem_cons, List.not_mem_nil, or_false] at h ⊢
    omega

theorem not_endsScan_of_lt (hi : 15 ≤ i) (htaken : taken pbData (i + 1) = 0) (hspace : pbData i ≠ 0x20)
    {a : Nat} (hlo : i ≤ a) (hhi : a < i + 1 + unitRest pbData (i + 1))
    : ¬ EndsScan pbData a := by
  rw [endsScan_iff]
  rintro ⟨hspace', htaken'⟩
  rcases Nat.eq_or_lt_of_le hlo with rfl | hlt
  . exact hspace hspace'
  . have hadd := taken_add (p := i + 1) (by omega) htaken (j := a - (i + 1)) (by omega)
    have heq : i + 1 + 1 + (a - (i + 1)) = a + 1 := by omega
    rw [heq, htaken'] at hadd
    omega

theorem eq_of_freeLed (hi : 15 ≤ i) (htaken : taken pbData (i + 1) = 0) (hlo : i < p)
    (hhi : p ≤ i + 1 + unitRest pbData (i + 1)) (hfree : FreeLed pbData p)
    : p = i + 1 := by
  rcases Nat.eq_or_lt_of_le hlo with heq | hlt
  . exact heq.symm
  . have hadd := taken_add (p := i + 1) (by omega) htaken (j := p - (i + 2)) (by omega)
    have heq : i + 1 + 1 + (p - (i + 2)) = p := by omega
    rw [heq, hfree.free] at hadd
    omega

theorem taken_next (hi : 15 ≤ i) (htaken : taken pbData (i + 1) = 0)
    : taken pbData (i + 1 + unitRest pbData (i + 1) + 1) = 0 := by
  have hadd := taken_add (p := i + 1) (by omega) htaken (Nat.le_refl _)
  have heq : i + 1 + 1 + unitRest pbData (i + 1) = i + 1 + unitRest pbData (i + 1) + 1 := by omega
  rw [heq] at hadd
  rw [hadd]
  omega

structure Scanned (pbData : Nat → UInt8) (i s : Nat) (scan : LedScan) : Prop where
  ends : FirstIn (EndsScan pbData) i (s + 1) (some s)
  mem_reads : s ∈ scan.reads
  reads_le : ∀ a ∈ scan.reads, a ≤ s
  mem_resets : ∀ pin, pin ∈ scan.resets
    ↔ ∃ p, i < p ∧ p + 4 ≤ s ∧ FreeLed pbData p ∧ pin ∈ ledPins (pbData (p + 4))

theorem scanned_of_space (htaken : taken pbData (i + 1) = 0) (hspace : pbData i = 0x20)
    : Scanned pbData i i { resets := [], reads := [i] } := by
  constructor
  . exact .here (Nat.lt_succ_self i) (endsScan_iff.mpr ⟨hspace, htaken⟩)
  . simp
  . simp
  . intro pin
    simp only [List.not_mem_nil, false_iff]
    rintro ⟨p, hlt, hle, _⟩
    omega

theorem Scanned.of_pass {scan : LedScan} (hi : 15 ≤ i) (htaken : taken pbData (i + 1) = 0)
    (hspace : pbData i ≠ 0x20) (h : Scanned pbData (ledPass pbData i).1 s scan)
    : Scanned pbData i s
        { resets := (ledPass pbData i).2.1 ++ scan.resets
          reads := i :: (ledPass pbData i).2.2 ++ scan.reads } := by
  have hnext := ledPass_next pbData i
  have hle := h.ends.1
  constructor
  . apply h.ends.skip
    . omega
    . intro a hlo hlt
      apply not_endsScan_of_lt hi htaken hspace hlo
      omega
  . simp [h.mem_reads]
  . intro a ha
    simp only [List.cons_append, List.mem_cons, List.mem_append] at ha
    rcases ha with rfl | hpass | hrest
    . omega
    . apply Nat.le_trans
      . exact le_of_mem_ledPass_reads hpass
      . exact hle
    . exact h.reads_le a hrest
  . intro pin
    rw [List.mem_append, mem_ledPass_resets, h.mem_resets]
    constructor
    . rintro (⟨hled, hpin⟩ | ⟨p, hlt, hs, hfree, hpin⟩)
      . have hrest := unitRest_of_isLed hled
        refine ⟨i + 1, by omega, by omega, ⟨by omega, hled, htaken⟩, ?_⟩
        exact hpin
      . exact ⟨p, by omega, hs, hfree, hpin⟩
    . rintro ⟨p, hlt, hs, hfree, hpin⟩
      rcases Nat.lt_or_ge (ledPass pbData i).1 p with hgt | hge
      . exact .inr ⟨p, hgt, hs, hfree, hpin⟩
      . rw [hnext] at hge
        have heq := eq_of_freeLed hi htaken hlt hge hfree
        subst heq
        exact .inl ⟨hfree.isLed, hpin⟩

theorem ledScan_spec {scan : LedScan} (hi : 15 ≤ i) (htaken : taken pbData (i + 1) = 0)
    (h : ledScan pbData fuel i = some scan)
    : ∃ s, Scanned pbData i s scan := by
  induction fuel generalizing i scan with
  | zero => cases h
  | succ fuel ih =>
    have hnext := ledPass_next pbData i
    unfold ledScan at h
    split at h
    . next hspace =>
      dsimp only at h
      split at h
      . cases h
      . next scan' hrest =>
        cases h
        have htaken' : taken pbData ((ledPass pbData i).1 + 1) = 0 := by
          rw [hnext]
          exact taken_next hi htaken
        rcases ih (by omega) htaken' hrest with ⟨s, hs⟩
        exact ⟨s, hs.of_pass hi htaken hspace⟩
    . next hspace =>
      cases h
      exact ⟨i, scanned_of_space htaken (Decidable.not_not.mp hspace)⟩

theorem ledScan_isSome (fuel : Nat) (hi : 15 ≤ i) (htaken : taken pbData (i + 1) = 0) (hle : i ≤ s)
    (hs : EndsScan pbData s) (hfuel : s - i < fuel)
    : (ledScan pbData fuel i).isSome := by
  induction fuel generalizing i with
  | zero => omega
  | succ fuel ih =>
    have hnext := ledPass_next pbData i
    unfold ledScan
    split
    . next hspace =>
      dsimp only
      have htaken' : taken pbData ((ledPass pbData i).1 + 1) = 0 := by
        rw [hnext]
        exact taken_next hi htaken
      have hle' : (ledPass pbData i).1 ≤ s := by
        rcases Nat.lt_or_ge s (ledPass pbData i).1 with hlt | hge
        . rw [hnext] at hlt
          exact absurd hs (not_endsScan_of_lt hi htaken hspace hle hlt)
        . exact hge
      have hrest := ih (by omega) htaken' hle' (by omega)
      rcases Option.isSome_iff_exists.mp hrest with ⟨scan, hscan⟩
      simp [hscan]
    . rfl

theorem mem_ledPins {c : UInt8} {k : Nat} (hpos : 1 ≤ k) (hle : k ≤ 4)
    : k + 1 ∈ ledPins c ↔ c.toNat = 0x30 + k := by
  have hdigit : ∀ d : UInt8, c = d ↔ c.toNat = d.toNat := fun d => UInt8.toNat_inj.symm
  unfold ledPins
  simp only [hdigit, UInt8.reduceToNat, List.mem_append, List.mem_ite_nil_right, List.mem_singleton]
  omega

theorem Scanned.mem_resets_iff {scan : LedScan} (h : Scanned pbData 15 s scan) {k : Nat} (hpos : 1 ≤ k)
    (hle : k ≤ 4)
    : k + 1 ∈ scan.resets ↔ AsksFree pbData s k := by
  have hspace : pbData s = 0x20 := h.ends.2.2.1.1
  rw [h.mem_resets]
  constructor
  . rintro ⟨p, _, hs, hfree, hpin⟩
    have hdigit := (mem_ledPins hpos hle).mp hpin
    refine ⟨p, ?_, hfree, hdigit⟩
    rcases Nat.eq_or_lt_of_le hs with heq | hlt
    . rw [heq, hspace] at hdigit
      simp only [UInt8.reduceToNat] at hdigit
      omega
    . exact hlt
  . rintro ⟨p, hs, hfree, hdigit⟩
    have hbehind := hfree.behind
    exact ⟨p, by omega, by omega, hfree, (mem_ledPins hpos hle).mpr hdigit⟩

theorem Scanned.first {scan : LedScan} {len : Nat} (h : Scanned pbData i s scan)
    (hreads : ∀ a ∈ scan.reads, a < len)
    : FirstIn (EndsScan pbData) i len (some s) :=
  ⟨h.ends.1, hreads s h.mem_reads, h.ends.2.2⟩

theorem vHandlerHttp_of_toLed (h : ToLed pbData) (ledWebFlag : UInt8)
    : ∃ sets, ∀ fuel, vHandlerHttp ledWebFlag pbData fuel
        = (ledScan pbData fuel 15).map fun scan => (.led sets scan, 0) := by
  rcases h with ⟨hadc, hled⟩
  have hhandler : ∀ flag fuel, handlerHttpLed flag pbData fuel =
      (ledScan pbData fuel 15).map fun scan =>
        (.led (if flag = 1 then [2, 3, 4, 5] else []) scan, 0) := by
    intro flag fuel
    unfold handlerHttpLed
    cases ledScan pbData fuel 15 <;> rfl
  unfold vHandlerHttp
  simp only [hadc, ↓reduceIte, hhandler]
  by_cases hget : strncmp pbData (cString "GET /method=get") 0 15 = 0
  . refine ⟨[2, 3, 4, 5], fun fuel => ?_⟩
    simp [hget]
  . have hpage := hled.resolve_left hget
    refine ⟨[], fun fuel => ?_⟩
    simp [hget, hpage]

instance : DecidablePred (EndsScan pbData) := fun _ => decidable_of_iff _ endsScan_iff.symm

theorem taken_start (pbData : Nat → UInt8) : taken pbData (15 + 1) = 0 := by simp [taken]

theorem LedExact.scannable {ledWebFlag : UInt8} {len : UInt16} (h : LedExact ledWebFlag pbData len)
    (hled : ToLed pbData)
    : LedScannable pbData len := by
  rcases vHandlerHttp_of_toLed hled ledWebFlag with ⟨sets, hrun⟩
  rcases h with ⟨fuel, sets', scan, flag, hsome, hreads, hexact⟩
  rw [hrun, Option.map_eq_some_iff] at hsome
  rcases hsome with ⟨scan', hscan, heq⟩
  cases heq
  rcases ledScan_spec (Nat.le_refl 15) (taken_start pbData) hscan with ⟨s, hs⟩
  refine ⟨s, hs.first hreads, ?_⟩
  intro e he k hpos hle
  have hresets := hexact e he k hpos hle
  rw [hs.mem_resets_iff hpos hle] at hresets
  constructor
  . exact hresets.mpr
  . intro p _ hlt hfree hdigit
    apply hresets.mp
    exact ⟨p, hlt, hfree, hdigit⟩

theorem LedScannable.exact {len : UInt16} (h : LedScannable pbData len) (hled : ToLed pbData)
    (ledWebFlag : UInt8)
    : LedExact ledWebFlag pbData len := by
  rcases vHandlerHttp_of_toLed hled ledWebFlag with ⟨sets, hrun⟩
  rcases h with ⟨s, hs, hleds⟩
  have hle : 15 ≤ s := hs.1
  have hsome := ledScan_isSome (s - 14) (Nat.le_refl 15) (taken_start pbData) hle hs.2.2.1
    (by omega)
  rcases Option.isSome_iff_exists.mp hsome with ⟨scan, hscan⟩
  rcases ledScan_spec (Nat.le_refl 15) (taken_start pbData) hscan with ⟨s', hs'⟩
  -- the scan can end in one place only
  have heq := hs'.ends.eq_of_some hs
  subst heq
  refine ⟨s' - 14, sets, scan, 0, ?_, ?_, ?_⟩
  . rw [hrun, hscan]
    rfl
  . intro a ha
    apply Nat.lt_of_le_of_lt
    . exact hs'.reads_le a ha
    . exact hs.2.1
  . intro e he k hpos hle
    rcases hleds e he k hpos hle with ⟨hcomplete, hsound⟩
    rw [hs'.mem_resets_iff hpos hle]
    constructor
    . rintro ⟨p, hlt, hfree, hdigit⟩
      have hbehind := hfree.behind
      rcases Nat.lt_trichotomy (p + 4) e with hin | hat | hout
      . refine ⟨p, hbehind, hin, hfree.isLed, ?_, hdigit⟩
        apply he.2.2.2 (p + 3)
        . omega
        . omega
      . rw [hat, he.2.2.1] at hdigit
        simp only [UInt8.reduceToNat] at hdigit
        omega
      . exact hsound p hout hlt hfree hdigit
    . exact hcomplete

theorem covers_iff : Covers pbData q p ↔ q < p ∧ p ≤ q + unitRest pbData q := by
  unfold Covers unitRest
  by_cases hl : pbData q = 0x6C
  . by_cases he : pbData (q + 1) = 0x65
    . by_cases hd : pbData (q + 2) = 0x64
      . simp only [hl, he, hd, true_and, ne_eq, not_true_eq_false, ↓reduceIte]
        omega
      . simp only [hl, he, hd, false_and, or_false, true_and, ne_eq, not_true_eq_false, ↓reduceIte,
          not_false_eq_true]
        omega
    . simp only [hl, he, false_and, or_false, true_and, ne_eq, not_true_eq_false, ↓reduceIte, not_false_eq_true]
      omega
  . simp only [hl, false_and, ne_eq, not_false_eq_true, ↓reduceIte, false_iff]
    omega

theorem taken_of_clear (h : Clear pbData p) : taken pbData p = 0 := by
  cases hn : taken pbData p with
  | zero => rfl
  | succ n =>
    rcases exists_unit_of_taken hn with ⟨q, hq, hlt, _, hunit⟩
    have hcovers : Covers pbData q p := covers_iff.mpr ⟨hlt, by omega⟩
    exact absurd hcovers (h q hq)

theorem taken_of_covers (hq : 16 ≤ q) (hclear : Clear pbData q) (h : Covers pbData q p)
    : taken pbData p ≠ 0 := by
  rcases covers_iff.mp h with ⟨hlt, hle⟩
  have hadd := taken_add hq (taken_of_clear hclear) (j := p - (q + 1)) (by omega)
  have heq : q + 1 + (p - (q + 1)) = p := by omega
  rw [heq] at hadd
  omega

theorem ne_space_of_toLed (h : ToLed pbData) {a : Nat} (hlo : 4 ≤ a) (hhi : a < 15) : pbData a ≠ 0x20 := by
  have hget : ∀ j, j < 15 → cString "GET /method=get" j ≠ 0
      ∧ (4 ≤ j → cString "GET /method=get" j ≠ 0x20) := by decide
  have hpage : ∀ j, j < 17 → cString "GET /STM32F107LED" j ≠ 0
      ∧ (4 ≤ j → cString "GET /STM32F107LED" j ≠ 0x20) := by decide
  rcases h.2 with heq | heq
  . rw [strncmp_eq_zero_iff fun j _ hj => (hget j (by omega)).1] at heq
    rw [heq a (by omega) (by omega)]
    exact (hget a (by omega)).2 hlo
  . rw [strncmp_eq_zero_iff fun j _ hj => (hpage j (by omega)).1] at heq
    rw [heq a (by omega) (by omega)]
    exact (hpage a (by omega)).2 hlo

theorem firstIn_target_iff (h : ToLed pbData) {len e : Nat}
    : FirstIn (fun a => pbData a = 0x20) 4 len (some e)
        ↔ FirstIn (fun a => pbData a = 0x20) 15 len (some e) := by
  have hnone : ∀ a, 4 ≤ a → a < 15 → ¬ pbData a = 0x20 := fun a => ne_space_of_toLed h
  constructor
  . rintro ⟨hlo, hhi, hspace, hfirst⟩
    refine ⟨?_, hhi, hspace, fun b hb => hfirst b (by omega)⟩
    apply Nat.le_of_not_lt
    intro hlt
    exact hnone e hlo hlt hspace
  . exact fun hfirst => hfirst.skip (by omega) hnone

theorem Legible.scannable {len : UInt16} (h : Legible pbData len) (hled : ToLed pbData)
    : LedScannable pbData len := by
  rcases h with ⟨e, he, hbehind, hclear⟩
  refine ⟨e, ⟨he.1, he.2.1, ⟨he.2.2.1, ?_⟩, ?_⟩, ?_⟩
  . intro p hp hfree
    exact hbehind p hfree.behind hp hfree.isLed
  . intro a hlo hlt hends
    exact he.2.2.2 a hlo hlt hends.1
  . intro e' he' k hpos hle
    have heq := ((firstIn_target_iff hled).mp he').eq_of_some he
    subst heq
    constructor
    . intro hasks
      rcases hclear k hpos hle hasks with ⟨p, ⟨hp, hlt, hisLed, hdigit⟩, hp'⟩
      exact ⟨p, hlt, ⟨hp, hisLed, taken_of_clear hp'⟩, hdigit⟩
    . intro p hout hlt
      omega

theorem LedScannable.not_garbled {len : UInt16} (h : LedScannable pbData len) (hled : ToLed pbData)
    : ¬ Garbled pbData len := by
  rcases h with ⟨s, hs, hleds⟩
  have hspace := hs.2.2.1.1
  rintro (hnone | ⟨e, he, hgarbled⟩)
  . exact hnone s hs.1 hs.2.1 hspace
  have hle : e ≤ s := by
    apply Nat.le_of_not_lt
    intro hlt
    exact he.2.2.2 s hs.1 hlt hspace
  have htarget := (firstIn_target_iff hled).mpr he
  rcases hgarbled with ⟨p, hp, rfl, hisLed, hclear, hbehind⟩ | ⟨hbehind, k, hpos, hle', hasks, hcovered⟩
  . -- the scan skips the space
    have hfree : FreeLed pbData p := ⟨hp, hisLed, taken_of_clear hclear⟩
    have hne : p + 3 ≠ s := fun heq => hs.2.2.1.2 p heq hfree
    rcases hbehind with hnone | ⟨k, hpos, hle', hdigit, hasks⟩
    . exact hnone s (by omega) hs.2.1 hspace
    . have hne' : p + 4 ≠ s := by
        intro heq
        rw [heq, hspace] at hdigit
        simp only [UInt8.reduceToNat] at hdigit
        omega
      apply hasks
      exact (hleds (p + 3) htarget k hpos hle').2 p (by omega) (by omega) hfree hdigit
  . have hends : EndsScan pbData e := ⟨he.2.2.1, fun p hp hfree => hbehind p hfree.behind hp hfree.isLed⟩
    have heq : s = e := by
      apply Nat.le_antisymm _ hle
      apply Nat.le_of_not_lt
      intro hlt
      exact hs.2.2.2 e he.1 hlt hends
    subst heq
    rcases (hleds s htarget k hpos hle').1 hasks with ⟨p, hlt, hfree, hdigit⟩
    rcases hcovered p ⟨hfree.behind, hlt, hfree.isLed, hdigit⟩ with ⟨q, hq, hcovers, hclear⟩
    exact taken_of_covers hq hclear hcovers hfree.free

theorem ledExact_legible (ledWebFlag : UInt8) (pbData : Nat → UInt8) (len : UInt16) (hled : ToLed pbData)
    : (Legible pbData len → LedExact ledWebFlag pbData len)
      ∧ (LedExact ledWebFlag pbData len → ¬ Garbled pbData len) := by
  constructor
  . intro h
    exact (h.scannable hled).exact hled ledWebFlag
  . intro h
    exact (h.scannable hled).not_garbled hled

def form : Nat → UInt8 := cString "GET /method=get?led=1&led=3 HTTP/1.1\r\n"

theorem legible_form : Legible form 38 := by
  have hled : ∀ p, p < 27 → 16 ≤ p → form p = 0x6C → p = 16 ∨ p = 22 := by decide
  refine ⟨27, by decide, ?_, ?_⟩
  . intro p hp heq hisLed
    have := hled p (by omega) hp hisLed.1
    omega
  . rintro k hpos hle ⟨p, hp, hlt, hisLed, _, hdigit⟩
    refine ⟨p, ⟨hp, hlt, hisLed, hdigit⟩, ?_⟩
    rintro q hq ⟨hl, hcovers⟩
    have := hled p (by omega) hp hisLed.1
    have := hled q (by omega) hq hl
    omega

theorem ledExact_form : LedExact 1 form 38 :=
  (ledExact_legible 1 _ 38 (by unfold ToLed; decide)).1 legible_form

/--
A doubled `l` hides LED 1; a space behind `led` is skipped, and LED 2 is switched on by the digit behind it; and
a request whose first buffer ends before the space is read on behind that buffer.
-/
theorem not_ledExact_doubled
    : ¬ LedExact 1 (cString "GET /method=get?lled=1 HTTP/1.1\r\n") 33
      ∧ ¬ LedExact 1 (cString "GET /method=get?led 2 HTTP/1.1\r\n") 32
      ∧ ¬ LedExact 1 (cString "GET /method=get?led=1 HTTP/1.1\r\n") 21 := by
  refine ⟨?_, ?_, ?_⟩
  . intro h
    rcases h.scannable (by unfold ToLed; decide) with ⟨s, hs, hleds⟩
    have hends : FirstIn (EndsScan (cString "GET /method=get?lled=1 HTTP/1.1\r\n")) 15 33 (some 22) := by
      decide
    have heq := hs.eq_of_some hends
    subst heq
    have hasks : Asks (cString "GET /method=get?lled=1 HTTP/1.1\r\n") 22 1 :=
      ⟨17, by decide, by decide, by unfold IsLed; decide, by decide, by decide⟩
    rcases (hleds 22 (by decide) 1 (by decide) (by decide)).1 hasks with ⟨p, hlt, hfree, _⟩
    have hnone : ∀ p, p < 18 → 16 ≤ p → IsLed (cString "GET /method=get?lled=1 HTTP/1.1\r\n") p →
        taken (cString "GET /method=get?lled=1 HTTP/1.1\r\n") p ≠ 0 := by
      unfold IsLed
      decide
    apply hnone p (by omega)
    . exact hfree.behind
    . exact hfree.isLed
    . exact hfree.free
  . intro h
    rcases h.scannable (by unfold ToLed; decide) with ⟨s, hs, hleds⟩
    have hends : FirstIn (EndsScan (cString "GET /method=get?led 2 HTTP/1.1\r\n")) 15 32 (some 21) := by
      decide
    have heq := hs.eq_of_some hends
    subst heq
    have hfree : FreeLed (cString "GET /method=get?led 2 HTTP/1.1\r\n") 16 :=
      ⟨by decide, by unfold IsLed; decide, by decide⟩
    rcases (hleds 19 (by decide) 2 (by decide) (by decide)).2 16 (by decide) (by decide) hfree
      (by decide) with ⟨p, hbehind, hlt, _⟩
    omega
  . intro h
    rcases h.scannable (by unfold ToLed; decide) with ⟨s, hs, _⟩
    have hnone : ∀ b, b < 21 → 15 ≤ b →
        cString "GET /method=get?led=1 HTTP/1.1\r\n" b ≠ 0x20 := by decide
    exact hnone s hs.2.1 hs.1 hs.2.2.1.1

end SerialGateway
