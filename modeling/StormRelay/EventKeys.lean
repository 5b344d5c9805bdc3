/-
What the keys of events tell apart (`internal/events/normalize.go`).

Three texts stand for an event: the fingerprint, hashed from its source, type,
subject and labels; the key by which repetitions are recognised; and the key by
which events are gathered into incidents.  Each is made by putting parts one after
the other, and the parts may contain the characters that separate them.

* `fingerprint_injective_iff` — **a fingerprint determines what was hashed, up to
  equality signs in label names**;
* `correlationKey_separates_iff` — **a correlation key determines its parts, up to
  separators inside them**;
* `dedupeKey_separates_iff` — **the deduplication keys of two CloudEvents differ
  exactly when their identifiers do**, whatever their sources.
-/
import StormRelay.Dedupe
import StormRelay.Separators
import StormRelay.Storable

namespace StormRelay

open Separators GoStd

/-! ### Texts and their bytes -/

theorem utf8_eq (s : String) : Policy.utf8 s = s.toList.flatMap String.utf8EncodeChar := by
  rw [Policy.utf8, String.toUTF8, ← String.utf8Encode_toList, List.utf8Encode,
    List.toList_data_toByteArray]

theorem utf8_inj {s t : String} (h : Policy.utf8 s = Policy.utf8 t) : s = t := by
  have hdata : s.toUTF8.data = t.toUTF8.data := Array.toList_inj.mp h
  exact String.toByteArray_inj.mp (ByteArray.ext hdata)

theorem high_of_mem_utf8EncodeChar {c : Char} (hc : ¬ c.toNat ≤ 127) :
    ∀ b ∈ String.utf8EncodeChar c, 128 ≤ b.toNat := by
  have hcode : String.utf8EncodeChar c = if c.toNat ≤ 127 then _ else _ := rfl
  rw [hcode, if_neg hc]
  split
  · simp only [List.forall_mem_cons, UInt8.toNat_ofNat', List.not_mem_nil, false_implies,
      implies_true, and_true]
    omega
  split
  · simp only [List.forall_mem_cons, UInt8.toNat_ofNat', List.not_mem_nil, false_implies,
      implies_true, and_true]
    omega
  · simp only [List.forall_mem_cons, UInt8.toNat_ofNat', List.not_mem_nil, false_implies,
      implies_true, and_true]
    omega

theorem count_utf8EncodeChar {a : Char} (ha : a.toNat < 128) (c : Char) :
    (String.utf8EncodeChar c).count (UInt8.ofNat a.toNat) = if c = a then 1 else 0 := by
  have hvalue : (UInt8.ofNat a.toNat).toNat = a.toNat := by
    rw [UInt8.toNat_ofNat']
    omega
  by_cases hc : c.toNat ≤ 127
  · have hcode : String.utf8EncodeChar c = [UInt8.ofNat c.toNat] := by
      rw [String.utf8EncodeChar]
      exact if_pos hc
    have hbyte : UInt8.ofNat c.toNat = UInt8.ofNat a.toNat ↔ c = a := by
      constructor
      · intro h
        have hval := congrArg UInt8.toNat h
        rw [hvalue, UInt8.toNat_ofNat'] at hval
        exact Char.toNat_inj.mp (by omega)
      · intro h
        rw [h]
    rw [hcode, List.count_singleton]
    simp only [beq_iff_eq, hbyte]
  have hne : c ≠ a := by
    intro h
    rw [h] at hc
    omega
  rw [if_neg hne, List.count_eq_zero]
  intro hmem
  have hhigh := high_of_mem_utf8EncodeChar hc _ hmem
  omega

theorem count_utf8 {a : Char} (ha : a.toNat < 128) (s : String) :
    (Policy.utf8 s).count (UInt8.ofNat a.toNat) = s.toList.count a := by
  rw [utf8_eq]
  induction s.toList with
  | nil => rfl
  | cons c l ih =>
    rw [List.flatMap_cons, List.count_append, ih, count_utf8EncodeChar ha, List.count_cons]
    simp only [beq_iff_eq]
    omega

theorem not_mem_utf8 {a : Char} (ha : a.toNat < 128) {s : String} (h : a ∉ s.toList) :
    UInt8.ofNat a.toNat ∉ Policy.utf8 s := by
  rw [← List.count_eq_zero, count_utf8 ha, List.count_eq_zero]
  exact h

namespace Events

/-! ### Fingerprints -/

/-- The arguments of `Fingerprint`. -/
structure Fingerprinted where
  source : String
  eventType : String
  subject : String
  labels : List (String × String)
  raw : List UInt8

namespace Fingerprinted

def fingerprint (pf : Platform) (x : Fingerprinted) : String :=
  Events.fingerprint pf x.source x.eventType x.subject x.labels x.raw

def sorted (x : Fingerprinted) : List (String × String) :=
  x.labels.insertionSort fun a b => a.1 ≤ b.1

/-- Texts from JSON strings without U+0000; the labels are a map and the raw bytes a
JSON text, in which no byte is zero. -/
structure WellFormed (x : Fingerprinted) : Prop where
  source : '\x00' ∉ x.source.toList
  eventType : '\x00' ∉ x.eventType.toList
  subject : '\x00' ∉ x.subject.toList
  labels : ∀ l ∈ x.labels, '\x00' ∉ l.1.toList ∧ '\x00' ∉ l.2.toList
  names : (x.labels.map Prod.fst).Nodup
  raw : 0 ∉ x.raw

/-- The same source, type, subject and labels, and the same raw bytes where these are
hashed. -/
structure Same (x y : Fingerprinted) : Prop where
  source : x.source = y.source
  eventType : x.eventType = y.eventType
  subject : x.subject = y.subject
  labels : x.labels.Perm y.labels
  raw : x.labels = [] → x.subject = "" → x.raw = y.raw

/-- How many equality signs the label names have, in the order of the names. -/
def nameSigns (x : Fingerprinted) : List ℕ :=
  x.sorted.map fun l => l.1.toList.count '='

def entry (l : String × String) : List UInt8 :=
  Policy.utf8 l.1 ++ 0x3D :: Policy.utf8 l.2

def tail (x : Fingerprinted) : List UInt8 :=
  if x.labels = [] ∧ x.subject = "" then x.raw else []

theorem labelBytes_eq (labels : List (String × String)) :
    labelBytes labels
      = terminated 0 ((labels.insertionSort fun a b => a.1 ≤ b.1).map entry) := by
  rw [labelBytes, terminated, List.flatMap_map]
  refine List.flatMap_congr fun l _ => ?_
  rw [entry, List.append_assoc, List.append_assoc, List.append_assoc]
  rfl

theorem fingerprint_eq (pf : Platform) (x : Fingerprinted) :
    x.fingerprint pf = hexEncode (pf.sha256
      (terminated 0 ([Policy.utf8 x.source, Policy.utf8 x.eventType, Policy.utf8 x.subject]
        ++ x.sorted.map entry) ++ x.tail)) := by
  rw [fingerprint, Events.fingerprint, labelBytes_eq, terminated, terminated]
  simp [tail, sorted]

variable {pf : Platform} {x y : Fingerprinted}

theorem mem_sorted {l : String × String} : l ∈ x.sorted ↔ l ∈ x.labels :=
  List.mem_insertionSort _

theorem WellFormed.fields (h : x.WellFormed) :
    ∀ field ∈ [Policy.utf8 x.source, Policy.utf8 x.eventType, Policy.utf8 x.subject]
      ++ x.sorted.map entry, (0 : UInt8) ∉ field := by
  have htext : ∀ {s : String}, '\x00' ∉ s.toList → (0 : UInt8) ∉ Policy.utf8 s :=
    fun hs => not_mem_utf8 (by decide) hs
  intro field hfield
  rcases List.mem_append.mp hfield with hfield | hfield
  · simp only [List.mem_cons, List.not_mem_nil, or_false] at hfield
    rcases hfield with rfl | rfl | rfl
    · exact htext h.source
    · exact htext h.eventType
    · exact htext h.subject
  obtain ⟨l, hl, rfl⟩ := List.mem_map.mp hfield
  obtain ⟨hname, hvalue⟩ := h.labels l (mem_sorted.mp hl)
  rw [entry, List.mem_append, List.mem_cons, not_or, not_or]
  exact ⟨htext hname, by decide, htext hvalue⟩

theorem WellFormed.tail (h : x.WellFormed) : (0 : UInt8) ∉ x.tail := by
  rw [Fingerprinted.tail]
  split
  · exact h.raw
  · exact List.not_mem_nil

/-- The same three texts, the same bytes `name=value` of each label in the order of the
names, and the same raw bytes where they are hashed. -/
structure HashedAlike (x y : Fingerprinted) : Prop where
  source : x.source = y.source
  eventType : x.eventType = y.eventType
  subject : x.subject = y.subject
  entries : x.sorted.map entry = y.sorted.map entry
  tail : x.tail = y.tail

/-- **What a fingerprint determines.** -/
theorem fingerprint_eq_iff (hsha : Function.Injective pf.sha256) (hx : x.WellFormed)
    (hy : y.WellFormed) :
    x.fingerprint pf = y.fingerprint pf ↔ HashedAlike x y := by
  rw [fingerprint_eq, fingerprint_eq]
  constructor
  · intro h
    have hbytes := hsha (hexEncode_inj h)
    obtain ⟨hfields, htail⟩ :=
      terminated_append_inj hx.fields hy.fields hx.tail hy.tail hbytes
    obtain ⟨htexts, hentries⟩ := List.append_inj hfields rfl
    simp only [List.cons.injEq, and_true] at htexts
    exact ⟨utf8_inj htexts.1, utf8_inj htexts.2.1, utf8_inj htexts.2.2, hentries, htail⟩
  · rintro ⟨hsource, htype, hsubject, hentries, htail⟩
    rw [hsource, htype, hsubject, hentries, htail]

/-- Labels are read back from what is hashed, if corresponding names have equally many
equality signs. -/
theorem entries_inj {ls ms : List (String × String)}
    (hsigns : (ls.map fun l => l.1.toList.count '=') = ms.map fun l => l.1.toList.count '=')
    (h : ls.map entry = ms.map entry) : ls = ms := by
  induction ls generalizing ms with
  | nil =>
    rw [List.map_nil, eq_comm, List.map_eq_nil_iff] at h
    exact h.symm
  | cons l ls ih =>
    rcases ms with _ | ⟨m, ms⟩
    · cases h
    obtain ⟨hsign, hsigns⟩ := List.cons.inj hsigns
    obtain ⟨hentry, hrest⟩ := List.cons.inj h
    have hcount : (Policy.utf8 l.1).count 0x3D = (Policy.utf8 m.1).count 0x3D := by
      have hname := count_utf8 (a := '=') (by decide) l.1
      have hname' := count_utf8 (a := '=') (by decide) m.1
      exact hname.trans (hsign.trans hname'.symm)
    obtain ⟨hname, hvalue⟩ := cut_inj hcount hentry
    rw [ih hsigns hrest, Prod.ext (utf8_inj hname) (utf8_inj hvalue)]

/-- A map has one listing in the order of its names. -/
theorem sorted_eq_of_perm (hx : x.WellFormed) (h : x.labels.Perm y.labels) :
    x.sorted = y.sorted := by
  have hperm : x.sorted.Perm y.sorted :=
    (List.perm_insertionSort _ _).trans (h.trans (List.perm_insertionSort _ _).symm)
  have : Std.Total fun a b : String × String => a.1 ≤ b.1 := ⟨fun a b => String.le_total a.1 b.1⟩
  have : IsTrans (String × String) fun a b => a.1 ≤ b.1 := ⟨fun _ _ _ => String.le_trans⟩
  have hsorted : ∀ z : Fingerprinted, z.sorted.Pairwise fun a b => a.1 ≤ b.1 :=
    fun z => List.pairwise_insertionSort _ z.labels
  refine hperm.eq_of_pairwise ?_ (hsorted x) (hsorted y)
  intro a b ha hb hle hge
  have hname : a.1 = b.1 := String.le_antisymm hle hge
  exact List.inj_on_of_nodup_map hx.names (mem_sorted.mp ha) (h.mem_iff.mpr (mem_sorted.mp hb))
    hname

theorem tail_eq_iff (hlabels : x.labels.Perm y.labels) (hsubject : x.subject = y.subject) :
    x.tail = y.tail ↔ (x.labels = [] → x.subject = "" → x.raw = y.raw) := by
  have hempty : x.labels = [] ↔ y.labels = [] := by
    constructor
    · intro h
      rw [h] at hlabels
      exact hlabels.symm.eq_nil
    · intro h
      rw [h] at hlabels
      exact hlabels.eq_nil
  have hhashed : x.labels = [] ∧ x.subject = "" ↔ y.labels = [] ∧ y.subject = "" := by
    rw [hempty, hsubject]
  rw [tail, tail]
  by_cases hraw : x.labels = [] ∧ x.subject = ""
  · rw [if_pos hraw, if_pos (hhashed.mp hraw)]
    exact ⟨fun h _ _ => h, fun h => h hraw.1 hraw.2⟩
  · rw [if_neg hraw, if_neg (mt hhashed.mpr hraw)]
    exact ⟨fun _ hlabels hsubject => absurd ⟨hlabels, hsubject⟩ hraw, fun _ => rfl⟩

theorem HashedAlike.same (h : HashedAlike x y) (hsigns : x.nameSigns = y.nameSigns) :
    Same x y := by
  obtain ⟨hsource, htype, hsubject, hentries, htail⟩ := h
  have hsorted : x.sorted = y.sorted := entries_inj hsigns hentries
  have hlabels : x.labels.Perm y.labels := by
    have hperm : x.sorted.Perm y.labels := by
      rw [hsorted]
      exact List.perm_insertionSort _ _
    exact (List.perm_insertionSort _ x.labels).symm.trans hperm
  exact ⟨hsource, htype, hsubject, hlabels, (tail_eq_iff hlabels hsubject).mp htail⟩

theorem nameSigns_eq (hx : ∀ l ∈ x.labels, '=' ∉ l.1.toList) (hy : ∀ l ∈ y.labels, '=' ∉ l.1.toList)
    (hlen : x.sorted.length = y.sorted.length) : x.nameSigns = y.nameSigns := by
  have hzero : ∀ z : Fingerprinted, (∀ l ∈ z.labels, '=' ∉ l.1.toList) →
      z.nameSigns = List.replicate z.sorted.length 0 := by
    intro z hz
    rw [nameSigns, List.eq_replicate_iff, List.length_map]
    refine ⟨rfl, fun n hn => ?_⟩
    obtain ⟨l, hl, rfl⟩ := List.mem_map.mp hn
    exact List.count_eq_zero.mpr (hz l (mem_sorted.mp hl))
  rw [hzero x hx, hzero y hy, hlen]

/-- **The fingerprint is injective up to equality signs in label names.**  With a
collision-free hash and texts without U+0000, equal fingerprints come from the same
source, type, subject and labels, and from the same raw bytes where these are hashed,
exactly when names of the same rank have equally many equality signs, unless the two
calls differ in what they hash; in particular when no name has one. -/
theorem fingerprint_injective_iff (pf : Platform) (hsha : Function.Injective pf.sha256)
    (x y : Fingerprinted) (hx : x.WellFormed) (hy : y.WellFormed) :
    ((x.fingerprint pf = y.fingerprint pf → Same x y)
        ↔ (HashedAlike x y → x.nameSigns = y.nameSigns))
      ∧ ((∀ l ∈ x.labels, '=' ∉ l.1.toList) → (∀ l ∈ y.labels, '=' ∉ l.1.toList) →
        x.fingerprint pf = y.fingerprint pf → Same x y) := by
  rw [fingerprint_eq_iff hsha hx hy]
  refine ⟨⟨fun h halike => ?_, fun h halike => halike.same (h halike)⟩, ?_⟩
  · rw [nameSigns, nameSigns, sorted_eq_of_perm hx (h halike).labels]
  intro hxnames hynames halike
  refine halike.same (nameSigns_eq hxnames hynames ?_)
  have hentries := congrArg List.length halike.entries
  rwa [List.length_map, List.length_map] at hentries

def identityHash : Platform where
  toLower := id
  valid := fun _ => true
  decodeObject := fun _ => .error "no object"
  decodeCloudEvent := fun _ => .error "no event"
  sha256 := id

def labelled (name value : String) : Fingerprinted where
  source := "s"
  eventType := "t"
  subject := ""
  labels := [(name, value)]
  raw := []

instance (x : Fingerprinted) : Decidable x.WellFormed :=
  decidable_of_iff ('\x00' ∉ x.source.toList ∧ '\x00' ∉ x.eventType.toList
      ∧ '\x00' ∉ x.subject.toList
      ∧ (∀ l ∈ x.labels, '\x00' ∉ l.1.toList ∧ '\x00' ∉ l.2.toList)
      ∧ (x.labels.map Prod.fst).Nodup ∧ 0 ∉ x.raw)
    ⟨fun ⟨h₁, h₂, h₃, h₄, h₅, h₆⟩ => ⟨h₁, h₂, h₃, h₄, h₅, h₆⟩,
      fun ⟨h₁, h₂, h₃, h₄, h₅, h₆⟩ => ⟨h₁, h₂, h₃, h₄, h₅, h₆⟩⟩

/-- Labels without signs in their names: equal fingerprints, equal labels. -/
theorem fingerprint_injective_plain :
    (labelled "a" "b=c").fingerprint identityHash
        = (labelled "a" "b=c").fingerprint identityHash
      ∧ Same (labelled "a" "b=c") (labelled "a" "b=c") :=
  ⟨rfl, (fingerprint_injective_iff identityHash Function.injective_id (labelled "a" "b=c")
    (labelled "a" "b=c") (by decide) (by decide)).2 (by decide) (by decide) rfl⟩

/-- **Different labels with one fingerprint**, whatever the hash: `a` with the value
`b=c`, and `a=b` with the value `c`. -/
theorem fingerprint_merges_labels :
    (labelled "a" "b=c").WellFormed ∧ (labelled "a=b" "c").WellFormed
      ∧ (∀ pf : Platform,
        (labelled "a" "b=c").fingerprint pf = (labelled "a=b" "c").fingerprint pf)
      ∧ ¬ Same (labelled "a" "b=c") (labelled "a=b" "c") := by
  refine ⟨by decide, by decide, fun pf => ?_, fun h => ?_⟩
  · have hentries : (labelled "a" "b=c").sorted.map entry
        = (labelled "a=b" "c").sorted.map entry := by
      decide +kernel
    rw [fingerprint_eq, fingerprint_eq, hentries]
    rfl
  · exact absurd h.labels (by decide)

end Fingerprinted

end Events

/-! ### Correlation keys -/

def resourceLabels (e : Events.Event) : List String :=
  [e.label "service", e.label "environment", e.label "resource", e.label "alertname"]

/-- The parts of a correlation key. -/
def keyParts (e : Events.Event) : List String :=
  if String.join (resourceLabels e) = "" then e.tenantID :: resourceLabels e ++ [e.fingerprint]
  else e.tenantID :: resourceLabels e

theorem correlationKey_eq (e : Events.Event) :
    correlationKey e = String.intercalate "|" (keyParts e) :=
  rfl

/-- The number of separators in each part. -/
def partSeparators (e : Events.Event) : List ℕ :=
  (keyParts e).map fun part => part.toList.count '|'

/-- The same tenant and resource, and the same fingerprint where no label names a
resource. -/
structure SameResource (e e' : Events.Event) : Prop where
  tenantID : e.tenantID = e'.tenantID
  labels : resourceLabels e = resourceLabels e'
  fingerprint : String.join (resourceLabels e) = "" → e.fingerprint = e'.fingerprint

variable {e e' : Events.Event}

theorem keyParts_inj (h : keyParts e = keyParts e') : SameResource e e' := by
  have hfirst : (keyParts e).take 5 = e.tenantID :: resourceLabels e
      ∧ (keyParts e').take 5 = e'.tenantID :: resourceLabels e' := by
    constructor
    · rw [keyParts]
      split <;> rfl
    · rw [keyParts]
      split <;> rfl
  have hlabels : e.tenantID :: resourceLabels e = e'.tenantID :: resourceLabels e' := by
    rw [← hfirst.1, ← hfirst.2, h]
  obtain ⟨htenant, hlabels⟩ := List.cons.inj hlabels
  refine ⟨htenant, hlabels, fun hnone => ?_⟩
  rw [keyParts, keyParts, if_pos hnone, if_pos (hlabels ▸ hnone)] at h
  exact List.singleton_inj.mp (List.append_inj' h rfl).2

theorem SameResource.keyParts_eq (h : SameResource e e') : keyParts e = keyParts e' := by
  rw [keyParts, keyParts, h.tenantID, h.labels]
  split
  · rename_i hnone
    rw [h.fingerprint (h.labels ▸ hnone)]
  · rfl

theorem map_toList_inj {xs ys : List String} (h : xs.map String.toList = ys.map String.toList) :
    xs = ys :=
  List.map_injective_iff.mpr (fun _ _ => String.toList_inj.mp) h

theorem sameResource_of_key_eq (h : correlationKey e = correlationKey e')
    (hcounts : partSeparators e = partSeparators e') : SameResource e e' := by
  rw [correlationKey_eq, correlationKey_eq] at h
  have hlist := congrArg String.toList h
  rw [String.toList_intercalate, String.toList_intercalate] at hlist
  have hparts : (keyParts e).map String.toList = (keyParts e').map String.toList := by
    refine intercalate_inj ?_ hlist
    rw [List.map_map, List.map_map]
    exact hcounts
  exact keyParts_inj (map_toList_inj hparts)

/-- The pieces of the parts between separators, one part after the other. -/
def keyPieces (e : Events.Event) : List (List Char) :=
  (keyParts e).flatMap fun part => part.toList.splitOn '|'

theorem splitOn_correlationKey (e : Events.Event) :
    (correlationKey e).toList.splitOn '|' = keyPieces e := by
  have hne : (keyParts e).map String.toList ≠ [] := by
    rw [keyParts]
    split <;> simp
  rw [correlationKey_eq, String.toList_intercalate]
  exact (splitOn_intercalate_eq hne).trans (List.flatMap_map _ _ _)

theorem correlationKey_eq_iff :
    correlationKey e = correlationKey e' ↔ keyPieces e = keyPieces e' := by
  rw [← splitOn_correlationKey, ← splitOn_correlationKey]
  refine ⟨fun h => by rw [h], fun h => ?_⟩
  have hjoined := congrArg (List.intercalate ['|']) h
  rw [List.intercalate_splitOn, List.intercalate_splitOn] at hjoined
  exact String.toList_inj.mp hjoined

theorem keyPieces_of_not_mem (h : ∀ part ∈ keyParts e, '|' ∉ part.toList) :
    keyPieces e = (keyParts e).map String.toList := by
  rw [keyPieces, List.map_eq_flatMap]
  exact List.flatMap_congr fun part hpart => List.splitOn_eq_singleton (h part hpart)

/-- **Correlation keys separate resources up to separators inside their parts.**  Equal
keys come from the same tenant, resource labels and, where there are none of these, the
same fingerprint, exactly when corresponding parts have equally many separators, unless
the parts differ in the pieces they chain; in particular when no part has a separator. -/
theorem correlationKey_separates_iff (e e' : Events.Event) :
    ((correlationKey e = correlationKey e' → SameResource e e')
        ↔ (keyPieces e = keyPieces e' → partSeparators e = partSeparators e'))
      ∧ ((∀ part ∈ keyParts e, '|' ∉ part.toList) → (∀ part ∈ keyParts e', '|' ∉ part.toList) →
        correlationKey e = correlationKey e' → SameResource e e') := by
  refine ⟨⟨fun h hpieces => ?_, fun h heq => ?_⟩, ?_⟩
  · rw [partSeparators, partSeparators, (h (correlationKey_eq_iff.mpr hpieces)).keyParts_eq]
  · exact sameResource_of_key_eq heq (h (correlationKey_eq_iff.mp heq))
  intro hfree hfree' heq
  have hpieces := correlationKey_eq_iff.mp heq
  rw [keyPieces_of_not_mem hfree, keyPieces_of_not_mem hfree'] at hpieces
  exact keyParts_inj (map_toList_inj hpieces)

def labelledEvent (labels : List (String × String)) : Events.Event :=
  { pageEvent with labels := some labels, fingerprint := "f0" }

/-- **Different resources with one key**: a separator that moves from the environment
to the service, and an alert name that looks like the fingerprint of an event without
labels. -/
theorem correlationKey_merges_resources :
    correlationKey (labelledEvent [("service", "a|b"), ("environment", "c")])
        = correlationKey (labelledEvent [("service", "a"), ("environment", "b|c")])
      ∧ ¬ SameResource (labelledEvent [("service", "a|b"), ("environment", "c")])
        (labelledEvent [("service", "a"), ("environment", "b|c")])
      ∧ correlationKey (labelledEvent [("alertname", "|f0")]) = correlationKey (labelledEvent [])
      ∧ ¬ SameResource (labelledEvent [("alertname", "|f0")]) (labelledEvent []) := by
  refine ⟨by decide +kernel, fun h => ?_, by decide +kernel, fun h => ?_⟩
  · exact absurd h.labels (by decide)
  · exact absurd h.labels (by decide)

/-! ### Deduplication keys of CloudEvents -/

/-- `e` is the event of the structured CloudEvent `ce`, accepted for the tenant and the
source without an idempotency key. -/
def Events.AcceptsCloudEvent (pf : Events.Platform) (tenantID sourceID : String)
    (ce : Events.CloudEvent) (e : Events.Event) : Prop :=
  ∃ (now : Time) (newID : Except String String) (input : Events.NormalizeInput),
    input.tenantID = tenantID ∧ input.sourceID = sourceID ∧ input.idempotencyKey = ""
      ∧ Events.isCloudEvent pf input = true ∧ pf.decodeCloudEvent input.body = .ok ce
      ∧ Events.normalize pf now newID input = .ok e

/-- What deduplication sees of an accepted CloudEvent: the source it was sent to and
its identifier, not its own source. -/
theorem dedupeKey_cloudEvent {pf : Events.Platform} {tenantID sourceID : String}
    {ce : Events.CloudEvent} (h : Events.AcceptsCloudEvent pf tenantID sourceID ce e) :
    e.sourceID = sourceID ∧ dedupeKey e = "source:" ++ ce.id := by
  obtain ⟨now, newID, input, _, hsource, hidem, hstructured, hdecode, hnorm⟩ := h
  have hdescribes := Events.normalize_ok hnorm
  refine ⟨hdescribes.sourceID.trans hsource, ?_⟩
  rw [Events.normalize] at hnorm
  split at hnorm
  · cases hnorm
  rw [Events.isCloudEvent] at hstructured
  rw [if_pos hstructured, Events.normalizeStructuredCloudEvent, hdecode] at hnorm
  simp only at hnorm
  split at hnorm
  · cases hnorm
  rename_i hfields
  have hid : ce.id ≠ "" := fun hid => hfields (.inr (.inl hid))
  have hkey : e.sourceEventID = ce.id := by
    rw [← Except.ok.inj hnorm]
  have hnone : e.idempotencyKey = "" := hdescribes.idempotencyKey.trans hidem
  rw [dedupeKey, if_neg (fun h => h hnone), hkey, if_pos hid]

/-- The two events are told apart: their keys differ, the stream does not take the one
for the other, and no worker records the one as a duplicate of the other. -/
structure ToldApart (e e' : Events.Event) : Prop where
  key : dedupeKey e ≠ dedupeKey e'
  message : messageID e ≠ messageID e'
  bucket : ∀ w : Worker, dedupeTuple w e ≠ dedupeTuple w e'

theorem toldApart_iff (hsource : e.sourceID = e'.sourceID) :
    ToldApart e e' ↔ dedupeKey e ≠ dedupeKey e' := by
  refine ⟨fun h => h.key, fun hkey => ⟨hkey, fun h => hkey ?_, fun w h => hkey ?_⟩⟩
  · rw [messageID, messageID, hsource] at h
    exact (String.append_right_inj _).mp h
  · exact (Prod.ext_iff.mp (Prod.ext_iff.mp (Prod.ext_iff.mp h).2).2).1

/-- **CloudEvents are told apart by their identifiers alone.**  Of two structured
CloudEvents accepted for the same tenant and source without idempotency keys, a pair of
source and identifier that differs makes them different for every layer of
deduplication exactly when the same identifier does not come with two sources. -/
theorem dedupeKey_separates_iff {pf : Events.Platform} {tenantID sourceID : String}
    {ce ce' : Events.CloudEvent} {e e' : Events.Event}
    (h : Events.AcceptsCloudEvent pf tenantID sourceID ce e)
    (h' : Events.AcceptsCloudEvent pf tenantID sourceID ce' e') :
    ((ce.source, ce.id) ≠ (ce'.source, ce'.id) → ToldApart e e')
      ↔ (ce.id = ce'.id → ce.source = ce'.source) := by
  obtain ⟨hsource, hkey⟩ := dedupeKey_cloudEvent h
  obtain ⟨hsource', hkey'⟩ := dedupeKey_cloudEvent h'
  have hapart : ToldApart e e' ↔ ce.id ≠ ce'.id := by
    rw [toldApart_iff (hsource.trans hsource'.symm), hkey, hkey', ne_eq, String.append_right_inj]
  rw [hapart]
  constructor
  · intro hpair hid
    by_contra hne
    exact hpair (fun heq => hne (Prod.ext_iff.mp heq).1) hid
  · intro hids hpair hid
    exact hpair (Prod.ext_iff.mpr ⟨hids hid, hid⟩)

/-! ### Two producers behind one webhook source -/

/-- Three bodies of one letter: the second comes from another producer, the third has
another identifier. -/
def producerEvent (letter : UInt8) : Events.CloudEvent where
  specVersion := "1.0"
  id := if letter = 0x63 then "2" else "1"
  source := if letter = 0x62 then "urn:b" else "urn:a"
  type := "alert"
  labels := some [("service", "web")]

def producerPlatform : Events.Platform where
  toLower := id
  valid := fun _ => true
  decodeObject := fun _ => .error "no object"
  decodeCloudEvent := fun body => .ok (producerEvent (body.headD 0))
  sha256 := id

def producerInput (letter : UInt8) : Events.NormalizeInput where
  tenantID := "t"
  sourceID := "s"
  contentType := "application/cloudevents+json"
  body := [letter]
  receivedAt := some 0

/-- The event `Normalize` makes of a body, as it is published and processed. -/
def producerAlert (letter : UInt8) (rawID : String) : AcceptedEvent :=
  { event := (Events.normalize producerPlatform 0 (.ok "new") (producerInput letter)).toOption.getD
      pageEvent
    publishedAt := 0, now := 0
    gen := { pageIDs with rawID := rawID, normalizedID := "event-" ++ rawID } }

theorem producerAlert_accepted {letter : UInt8} (hletter : letter ∈ [0x61, 0x62, 0x63])
    (rawID : String) :
    Events.AcceptsCloudEvent producerPlatform "t" "s" (producerEvent letter)
      (producerAlert letter rawID).event := by
  have haccepts : ∀ letter ∈ ([0x61, 0x62, 0x63] : List UInt8),
      Events.isCloudEvent producerPlatform (producerInput letter) = true
        ∧ (Events.normalize producerPlatform 0 (.ok "new") (producerInput letter)).isOk = true := by
    decide +kernel
  obtain ⟨hstructured, hok⟩ := haccepts letter hletter
  refine ⟨0, .ok "new", producerInput letter, rfl, rfl, rfl, hstructured, rfl, ?_⟩
  rcases hnorm : Events.normalize producerPlatform 0 (.ok "new") (producerInput letter) with err | e
  · rw [hnorm] at hok
    cases hok
  · rw [producerAlert, hnorm]
    rfl

/-- Two identifiers of one producer are told apart. -/
theorem dedupeKey_separates_identifiers :
    ToldApart (producerAlert 0x61 "a").event (producerAlert 0x63 "c").event :=
  (dedupeKey_separates_iff (producerAlert_accepted (by decide) "a")
    (producerAlert_accepted (by decide) "c")).mpr (by decide) (by decide)

/-- **An event is lost between two producers.**  They send different events with the
same identifier to one webhook source: the stream discards the second, and a worker
that gets it records it as a duplicate of the first. -/
theorem second_producer_lost :
    Events.AcceptsCloudEvent producerPlatform "t" "s" (producerEvent 0x61)
        (producerAlert 0x61 "a").event
      ∧ Events.AcceptsCloudEvent producerPlatform "t" "s" (producerEvent 0x62)
        (producerAlert 0x62 "b").event
      ∧ (producerEvent 0x61).source ≠ (producerEvent 0x62).source
      ∧ (Pipeline.step defaultWorker (producerAlert 0x61 "a") emptyPipeline).discards
        (producerAlert 0x62 "b") = true
      ∧ ((Tx.after true (processEvent pagePlatform 0 (producerAlert 0x62 "b").gen
          (producerAlert 0x62 "b").message defaultWorker.options)
          (Pipeline.step defaultWorker (producerAlert 0x61 "a")
            emptyPipeline).db).normalizedEvents.map (·.rawEventID)) = ["a"] := by
  refine ⟨producerAlert_accepted (by decide) "a", producerAlert_accepted (by decide) "b", by decide,
    ?_, ?_⟩
  · decide +kernel
  · decide +kernel

end StormRelay
