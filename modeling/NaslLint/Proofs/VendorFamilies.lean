import NaslLint.Checks.Tags
import NaslLint.Proofs.OidAgreement
import NaslLint.Proofs.Pattern.All

/-!
# The families of vendors

A vendor with a branch of object identifiers has its scripts in one family. The check of identifiers
demands that family, and the check of families has a list of all that exist. The two agree on every
vendor but one: the family demanded for Red Hat is spelled without the blank that it has in the list,
so that no script with an identifier of that vendor passes both checks.

* `Checks.InOrder` is what the check of identifiers has seen to when it says nothing;
* `Checks.mem_families_iff` compares the two tables.
-/

namespace NaslLint.Checks

open Pattern

section
variable {s : Subject} {w : Surroundings} {t oid : List Char} {m : Match}

/-! ## What is demanded -/

structure InOrder (v : Vendor) (family oid : List Char) : Prop where
  listed : v ∈ vendors
  number_eq : vendorNumber? oid = some v.number
  family_eq : String.ofList family = v.family
  follows : ∀ scheme ∈ v.scheme, scheme.pattern.occursIn oid = true

theorem inOrder_of_judgeVendor {v : Vendor} {family : List Char} (hlisted : v ∈ vendors)
    (hnumber : vendorNumber? oid = some v.number) (h : judgeVendor v family oid = []) :
    InOrder v family oid := by
  unfold judgeVendor at h
  split at h
  · cases h
  · rename_i hfamily
    refine ⟨hlisted, hnumber, not_not.1 hfamily, ?_⟩
    intro scheme hscheme
    rw [Option.mem_def.1 hscheme] at h
    simp only at h
    split at h
    · assumption
    · cases h

/-- An identifier of the vendor branch that is not complained about belongs to one of the vendors. -/
theorem exists_inOrder_of_judgeVendorBranch (hfamily : Call.family.pattern.find? t = some m)
    (h : judgeVendorBranch t oid = []) : ∃ v, InOrder v (m.group "value") oid := by
  unfold judgeVendorBranch at h
  rw [hfamily] at h
  simp only at h
  split at h
  · cases h
  · rename_i number hnumber
    split at h
    · cases h
    · rename_i v hv
      have hfound : v.number = number := by simpa using List.find?_some hv
      refine ⟨v, inOrder_of_judgeVendor (List.mem_of_find?_eq_some hv) ?_ h⟩
      rw [hfound, hnumber]

/-- The identifier of a script without findings, if it lies in the vendor branch, is in order. -/
theorem exists_inOrder_of_validOid (hfile : s.file.isInclude = false) (htext : s.text = .ok t)
    (hoid : oid? t = some oid)
    (hbranch : Text.contains "1.3.6.1.4.1.25623.1.1.".toList oid = true)
    (hfamily : Call.family.pattern.find? t = some m)
    (hvalid : validOid.findings s w = .done []) : ∃ v, InOrder v (m.group "value") oid := by
  have hrun : (validOid.run s w).results = [] :=
    List.map_eq_nil_iff.1 (congrArg Outcome.results hvalid)
  simp only [validOid, Subject.withText, htext, Subject.unlessInclude, hfile, Bool.false_eq_true,
    if_false, judgeOid, hoid] at hrun
  split at hrun
  · cases hrun
  · exact exists_inOrder_of_judgeVendorBranch hfamily hrun

/-! ## What exists -/

/-- **The two tables.** The family of every vendor exists, but for that of Red Hat. -/
theorem mem_families_iff : ∀ v ∈ vendors, (v.family ∈ families ↔ v.number ≠ "11") ∧
    (v.number = "11" → v.family = "RedHat Local Security Checks") := by
  decide +kernel

/-- What is said of a script with one family. -/
theorem findings_scriptFamily (hfile : s.file.isInclude = false) (htext : s.text = .ok t)
    (hfamily : Call.family.pattern.findAll t = [m]) :
    scriptFamily.findings s w =
      .done (if String.ofList (m.group "value") ∈ families then []
        else [(Remark.error ("Invalid or misspelled script family '" ++
          String.ofList (m.group "value") ++ "'")).toFinding s.file scriptFamily.name]) := by
  simp only [FileCheck.findings, scriptFamily, Subject.onScript, Subject.withText, htext,
    Subject.unlessInclude, hfile, Bool.false_eq_true, if_false, hfamily, List.contains_iff_mem]
  split
  · rfl
  · rfl

end

/-! ## Both checks -/

/-- **Identifiers and families of vendors.** A script with one family whose identifier lies in the
vendor branch and is accepted has the family demanded for its vendor. The check of families accepts
it as well if and only if the vendor is not Red Hat; of a script of Red Hat it says that the demanded
family is misspelled. -/
theorem scriptFamily_of_validOid {s : Subject} {w : Surroundings} {t oid : List Char} {m : Match}
    (hfile : s.file.isInclude = false) (htext : s.text = .ok t)
    (hfamily : Call.family.pattern.findAll t = [m]) (hoid : oid? t = some oid)
    (hbranch : Text.contains "1.3.6.1.4.1.25623.1.1.".toList oid = true)
    (hvalid : validOid.findings s w = .done []) :
    ∃ v ∈ vendors, vendorNumber? oid = some v.number ∧
      String.ofList (m.group "value") = v.family ∧
      (scriptFamily.findings s w = .done [] ↔ v.number ≠ "11") ∧
      (v.number = "11" → scriptFamily.findings s w =
        .done [(Remark.error ("Invalid or misspelled script family " ++
          "'RedHat Local Security Checks'")).toFinding s.file scriptFamily.name]) := by
  have hfirst : Call.family.pattern.find? t = some m := by
    rw [← head?_findAll, hfamily]
    rfl
  obtain ⟨v, hv⟩ := exists_inOrder_of_validOid hfile htext hoid hbranch hfirst hvalid
  obtain ⟨hexists, hredHat⟩ := mem_families_iff v hv.listed
  rw [findings_scriptFamily hfile htext hfamily, hv.family_eq]
  refine ⟨v, hv.listed, hv.number_eq, rfl, ?_, ?_⟩
  · rw [← hexists]
    by_cases hmem : v.family ∈ families
    · simp [hmem]
    · simp [hmem, Outcome.done]
  · intro hnumber
    have hmissing : v.family ∉ families := fun hmem => hexists.1 hmem hnumber
    rw [if_neg hmissing, hredHat hnumber]
    rfl

def vendorScript (oid family : String) : Subject :=
  { root := ⟨"/", []⟩
    file := ⟨"/", ["a.nasl"]⟩
    text := .ok ("script_oid(\"".toList ++ oid.toList ++ "\");\nscript_family(\"".toList ++
      family.toList ++ "\");\n".toList) }

/-- A script of EulerOS passes both checks. -/
theorem scriptFamily_of_validOid_of_eulerOs :
    let s := vendorScript "1.3.6.1.4.1.25623.1.1.2.2020.1234" "Huawei EulerOS Local Security Checks"
    let w : Surroundings := { tree := .empty, now := default }
    s.file.isInclude = false ∧ validOid.findings s w = .done [] ∧
      scriptFamily.findings s w = .done [] := by
  intro s w
  have hfile : s.file.isInclude = false := by decide
  obtain ⟨t, htext⟩ : ∃ t, s.text = .ok t := ⟨_, rfl⟩
  obtain ⟨hone, hoid, hvalid⟩ :
      (s.text.map fun t => (Call.family.pattern.findAll t).length) = .ok 1 ∧
      s.text.map oid? = .ok (some "1.3.6.1.4.1.25623.1.1.2.2020.1234".toList) ∧
      validOid.findings s w = .done [] := by
    decide +kernel
  rw [htext] at hone hoid
  obtain ⟨m, hm⟩ := List.length_eq_one_iff.1 (Except.ok.inj hone)
  obtain ⟨v, -, hnumber, -, hboth, -⟩ := scriptFamily_of_validOid hfile htext hm
    (Except.ok.inj hoid) (by decide) hvalid
  refine ⟨hfile, hvalid, hboth.2 ?_⟩
  intro hredHat
  rw [hredHat] at hnumber
  exact absurd hnumber (by decide +kernel)

/-- A script of Red Hat that does what the check of identifiers demands does not pass both. -/
theorem redHat_family_refused :
    let s := vendorScript "1.3.6.1.4.1.25623.1.1.11.2022.1234" "RedHat Local Security Checks"
    let w : Surroundings := { tree := .empty, now := default }
    s.file.isInclude = false ∧
      (s.text.map fun t => (Call.family.pattern.findAll t).length) = .ok 1 ∧
      s.text.map oid? = .ok (some "1.3.6.1.4.1.25623.1.1.11.2022.1234".toList) ∧
      Text.contains "1.3.6.1.4.1.25623.1.1.".toList
        "1.3.6.1.4.1.25623.1.1.11.2022.1234".toList = true ∧
      validOid.findings s w = .done [] ∧ scriptFamily.findings s w ≠ .done [] := by
  decide +kernel

end NaslLint.Checks
