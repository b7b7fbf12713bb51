import NaslLint.Proofs.Repair
import NaslLint.Proofs.Solution.Wording

/-!
# Scripts without a solution are sorted by the day they name

A script without a solution says so in a prescribed sentence, which names a day. One check insists on
the sentence, another one sorts such scripts by their day and counts them. Both understand it alike.

* `Checks.hasSolutionType_eq_false`: a script whose types of solution are all the same has no other;
* `Checks.NoSolution.Judged` describes a run of the second check;
* `Checks.prescribed_solution_dated` is the main statement.
-/

namespace NaslLint

open Pattern Script Text

/-! ## Tags and their values -/

namespace Script

section
variable {name : String} {size : Nat} {s e : Place} {w : List Char}

/-- A pattern for any value fits where one for a given value does. -/
theorem mem_ends_tag_shortText (hw : w ≠ []) (h : e ∈ (tag name (word w)).ends size s) :
    e ∈ (tag name shortText).ends size s := by
  rw [tag_eq] at h ⊢
  obtain ⟨u, hu, h⟩ := mem_ends_seq.1 h
  obtain ⟨v, hv, h⟩ := (mem_ends_chain_append (by simp [beforeValue]) (by simp)).1 h
  obtain ⟨_, hfill, he⟩ := mem_ends_seq.1 h
  obtain ⟨x, hx, rfl⟩ := mem_ends_group.1 hfill
  obtain ⟨⟨r, hr⟩, rfl⟩ := mem_ends_word.1 hx
  have hshort : v.move w.length ∈ shortText.ends size v :=
    mem_ends_run.2 ⟨w, r, hr.symm, List.length_pos_iff.2 hw, by simp, by simp, rfl⟩
  refine mem_ends_seq.2 ⟨u, hu, (mem_ends_chain_append (by simp [beforeValue]) (by simp)).2
    ⟨v, hv, mem_ends_seq.2 ⟨_, mem_ends_group.2 ⟨_, hshort, rfl⟩, he⟩⟩⟩

end

end Script

/-! ## The types of solution that a script states -/

namespace Checks

/-- No tag opens inside the text of another one, if that text has no further `c`. -/
theorem not_opens_inside {l r a b : List Char} (hl : 'c' ∉ l) (hlast : l.getLast? = some ';')
    (ha : a ≠ []) (hlen : a.length < ("script_tag(".toList ++ l).length)
    (h : "script_tag(".toList ++ l ++ r = a ++ ("script_tag(".toList ++ b)) : False := by
  obtain ⟨l, rfl⟩ := List.getLast?_eq_some_iff.1 hlast
  have hopening : "script_tag(".toList = 's' :: 'c' :: "ript_tag(".toList := by decide
  have hc : 'c' ∉ "ript_tag(".toList ++ l := by
    intro hmem
    rcases List.mem_append.1 hmem with hmem | hmem
    · exact absurd hmem (by decide)
    · exact hl (List.mem_append_left _ hmem)
  rw [hopening] at h hlen
  generalize "ript_tag(".toList = o at h hlen hc
  rcases a with _ | ⟨c₀, _ | ⟨c₁, a⟩⟩
  · exact ha rfl
  · exact absurd (List.cons.inj (List.cons.inj h).2).1 (by decide)
  have htail : (o ++ l) ++ ';' :: r = a ++ 's' :: 'c' :: (o ++ b) := by
    simpa using (List.cons.inj (List.cons.inj h).2).2
  -- the other tag would have to open with the last character or to use a `c`
  rcases List.append_eq_append_iff.1 htail with ⟨m, rfl, hm⟩ | ⟨m, hu, hm⟩
  · rcases m with _ | ⟨d, m⟩
    · exact absurd (List.cons.inj hm).1 (by decide)
    · simp only [List.length_cons, List.length_append, List.length_nil] at hlen
      omega
  · rcases m with _ | ⟨d, _ | ⟨d', m⟩⟩
    · exact absurd (List.cons.inj hm).1 (by decide)
    · exact absurd (List.cons.inj (List.cons.inj hm).2).1 (by decide)
    · obtain rfl := (List.cons.inj (List.cons.inj hm).2).1
      exact hc (by rw [hu]; simp)

/-- The first of two characters that a text holds is the same however the text is cut. -/
theorem eq_of_append_cons_eq {x x' r r' : List Char} {a b : Char} (hx : a ∉ x ∧ b ∉ x)
    (hx' : a ∉ x' ∧ b ∉ x') (h : x ++ a :: r = x' ++ b :: r') : a = b := by
  have hnone {y : List Char} (hy : a ∉ y ∧ b ∉ y) : y.find? (fun c => c == a || c == b) = none := by
    rw [List.find?_eq_none]
    intro c hc hor
    rcases Bool.or_eq_true_iff.1 hor with heq | heq
    · exact hy.1 (eq_of_beq heq ▸ hc)
    · exact hy.2 (eq_of_beq heq ▸ hc)
  have hfind := congrArg (List.find? fun c => c == a || c == b) h
  rw [List.find?_append, List.find?_append, hnone hx, hnone hx'] at hfind
  simpa using hfind

section
variable {name : String} {value : Pattern} {size : Nat} {s e e' : Place} {w : List Char}

/-- What a tag sets is read in one way only. -/
theorem eq_of_mem_ends_tag {a b : Char} {w' : List Char} (ha : Foreign name a) (hb : Foreign name b)
    (hgroups : s.groups = []) (he : e ∈ (tag name (word (a :: w))).ends size s)
    (he' : e' ∈ (tag name shortText).ends size s)
    (hvalue : Match.group ⟨s.spanTo e', e'.groups⟩ "value" = b :: w') : a = b := by
  obtain ⟨x, v, z, htext, hv, -, -, hforeign⟩ := exists_value_of_mem_ends_tag rfl hgroups he
  obtain ⟨x', v', z', htext', -, -, hgroup', hforeign'⟩ :=
    exists_value_of_mem_ends_tag rfl hgroups he'
  obtain rfl : v = a :: w := hv
  obtain rfl : v' = b :: w' := hgroup'.symm.trans hvalue
  have heq := (leads_of_mem_ends he).rest_eq.symm.trans (leads_of_mem_ends he').rest_eq
  rw [htext, htext'] at heq
  simp only [List.append_assoc] at heq
  exact eq_of_append_cons_eq ⟨(hforeign a ha).1, (hforeign b hb).1⟩
    ⟨(hforeign' a ha).1, (hforeign' b hb).1⟩ (List.append_cancel_left heq)

/-- No tag lies inside another one whose value has no `c`. -/
theorem not_mem_ends_inside {k : Nat} (hname : Foreign name 'c') (hgroups : s.groups = [])
    (he' : e' ∈ (tag name shortText).ends size s)
    (hvalue : Match.group ⟨s.spanTo e', e'.groups⟩ "value" = w) (hw : 'c' ∉ w) (hk : 0 < k)
    (hstop : s.pos + k < e'.pos) : e ∉ (tag name value).ends size (s.move k) := by
  intro he
  obtain ⟨x, v, z, htext, -, hlast, hgroup, hforeign⟩ :=
    exists_value_of_mem_ends_tag rfl hgroups he'
  obtain rfl : v = w := hgroup.symm.trans hvalue
  have hopens : "script_tag(".toList <+: (s.move k).rest := by
    rw [tag_eq] at he
    obtain ⟨u, hu, -⟩ := mem_ends_seq.1 he
    exact (mem_ends_word.1 hu).1
  obtain ⟨b, hb⟩ := hopens
  rw [Place.rest_move] at hb
  have hrest := (leads_of_mem_ends he').rest_eq
  have hlength := (leads_of_mem_ends he').pos_eq
  rw [htext] at hrest hlength
  have htake : (s.rest.take k).length = k := by
    rw [List.length_take, hrest, List.length_append]
    omega
  obtain ⟨hcx, hcz⟩ := hforeign 'c' hname
  have hsplit : "script_tag(".toList ++ (x ++ (v ++ z)) ++ e'.rest =
      s.rest.take k ++ ("script_tag(".toList ++ b) := by
    rw [← hrest, hb, List.take_append_drop]
  refine not_opens_inside ?_ ?_ ?_ (by omega) hsplit
  · intro hmem
    rcases List.mem_append.1 hmem with hmem | hmem
    · exact hcx hmem
    · rcases List.mem_append.1 hmem with hmem | hmem
      · exact hw hmem
      · exact hcz hmem
  · rw [List.getLast?_append, List.getLast?_append, hlast]
    rfl
  · intro hnil
    rw [hnil] at htake
    simp at htake
    omega

end

/-- **One type excludes others.** A script all of whose types of solution read `NoneAvailable` does
not state that there will be no fix. -/
theorem hasSolutionType_eq_false {t : List Char}
    (h : ∀ m ∈ Tag.solutionType.pattern.findAll t, m.group "value" = "NoneAvailable".toList) :
    hasSolutionType "WillNotFix" t = false := by
  by_contra hstated
  rw [Bool.not_eq_false] at hstated
  obtain ⟨m₀, hm₀⟩ := Option.isSome_iff_exists.1 hstated
  obtain ⟨n, hn, hmatch⟩ := exists_matchAt?_of_find? hm₀
  obtain ⟨e, he, -⟩ := exists_mem_ends_of_matchAt? hmatch
  -- a tag of any type fits there as well, so the place lies in one of the tags of the script
  obtain ⟨m₁, hm₁⟩ : ∃ m₁, Tag.solutionType.pattern.matchAt? t.length
      ((Place.ofText t).move n) = some m₁ := by
    have hshort : e ∈ Tag.solutionType.pattern.ends t.length ((Place.ofText t).move n) :=
      mem_ends_tag_shortText (by decide) he
    rw [← Option.isSome_iff_exists, Option.isSome_iff_ne_none, Ne, matchAt?_eq_none_iff]
    intro hnil
    rw [hnil] at hshort
    exact List.not_mem_nil hshort
  obtain ⟨m, hmem, hlo, hhi⟩ := exists_mem_findAll_of_matchAt? hn hm₁
  obtain ⟨n', hn', hm⟩ := exists_matchAt?_of_mem_findAll hmem
  have hstart : m.start = n' := by
    rw [start_of_matchAt? hm, Place.pos_move hn']
    exact Nat.zero_add n'
  obtain ⟨e', he', rfl⟩ := exists_mem_ends_of_matchAt? hm
  have hvalue := h _ hmem
  rw [hstart] at hlo hhi
  obtain ⟨k, rfl⟩ : ∃ k, n = n' + k := ⟨n - n', by omega⟩
  rw [← Place.move_move] at he
  rcases Nat.eq_zero_or_pos k with rfl | hk
  · rw [Place.move_zero] at he
    exact absurd (eq_of_mem_ends_tag (by decide) (by decide) (Place.groups_move _ _) he he' hvalue)
      (by decide)
  · refine not_mem_ends_inside (by decide) (Place.groups_move _ _) he' hvalue (by decide) hk ?_ he
    change ((Place.ofText t).move n').pos = n' at hstart
    change n' + k < max e'.pos (n' + 1) at hhi
    omega

/-! ## A script with the prescribed sentence -/

/-- A script with a prescribed sentence as its solution. -/
structure DatedSolution where
  day : Date
  suffix : String
  sentence : List Char
  before : List Char
  behind : List Char
  nameable : Nameable day
  ordinal : suffix ∈ ordinalSuffixes
  spaced : Spaced (noneAvailableWords day suffix) sentence

namespace DatedSolution
variable (p : DatedSolution)

def tagText : List Char :=
  Script.tagText (quoted '"' Tag.solution.name.toList) (quoted '"' p.sentence)

def text : List Char :=
  p.before ++ (p.tagText ++ p.behind)

/-- The script states no other type of solution and no other solution, and it has a severity. -/
structure IsUnsolved : Prop where
  type : ∀ m ∈ Tag.solutionType.pattern.findAll p.text, m.group "value" = "NoneAvailable".toList
  severity : hasNoSeverity p.text = false
  only : ∀ m ∈ Tag.solution.pattern.findAll p.text, m.start = p.before.length

instance : Decidable p.IsUnsolved :=
  decidable_of_iff ((∀ m ∈ Tag.solutionType.pattern.findAll p.text,
      m.group "value" = "NoneAvailable".toList) ∧ hasNoSeverity p.text = false ∧
      ∀ m ∈ Tag.solution.pattern.findAll p.text, m.start = p.before.length)
    ⟨fun ⟨ht, hs, ho⟩ => ⟨ht, hs, ho⟩, fun ⟨ht, hs, ho⟩ => ⟨ht, hs, ho⟩⟩

theorem tagText_eq : p.tagText = solutionStart ++ (p.sentence ++ "\");".toList) := by
  have hstart : solutionStart = "script_tag(name:".toList ++ ('"' :: (Tag.solution.name.toList ++
      ('"' :: (", value:".toList ++ ['"'])))) := by
    decide
  rw [hstart]
  unfold tagText Script.tagText quoted
  simp

/-- The sentence holds neither quotes nor brackets. -/
theorem plain_sentence : ∀ c ∈ p.sentence, c ≠ '"' ∧ c ≠ ')' := by
  intro c hc
  have hmem := mem_sentence p.nameable p.ordinal p.spaced hc
  constructor
  · rintro rfl
    exact absurd hmem (by decide)
  · rintro rfl
    exact absurd hmem (by decide)

theorem sentence_ne_nil : p.sentence ≠ [] := by
  obtain ⟨y, gap, gap₁, gap₂, gap₃, z, -, -, -, -, -, -, hsentence⟩ :=
    exists_of_noneAvailableWords p.spaced
  rw [hsentence]
  simp

/-- The solution is found, and read as the sentence. -/
theorem find?_solution (h : p.IsUnsolved) :
    ∃ m, Tag.solution.pattern.find? p.text = some m ∧ m.group "value" = p.sentence := by
  have htakes : Takes Tag.solution.pattern p.tagText p.behind []
      [("value", p.sentence), ("quote2", ['"']), ("name", Tag.solution.name.toList),
        ("quote", ['"'])] :=
    takes_tagWith (by decide) (fun _ => takes_word.group) rfl (by decide)
      (takes_valueAndEnd_shortText (by decide) (by decide) p.sentence_ne_nil p.plain_sentence)
  have hrest : ((Place.ofText p.text).move p.before.length).rest = p.tagText ++ p.behind := by
    rw [Place.rest_move]
    exact List.drop_left
  obtain ⟨m, hm, hcovers⟩ := htakes.matchAt? p.text.length hrest (Place.groups_move _ _)
  exact ⟨m, find?_of_only hm h.only, hcovers.group_eq rfl⟩

/-- The check that prescribes the sentence is content. -/
theorem solutionTextRemark?_eq (h : p.IsUnsolved) : solutionTextRemark? p.text = none := by
  have hwording : noneAvailableWording.occursIn p.text = true := by
    have hrest : ((Place.ofText p.text).move p.before.length).rest =
        (solutionStart ++ p.sentence) ++ ("\");".toList ++ p.behind) := by
      rw [Place.rest_move, List.append_assoc, ← List.append_assoc p.sentence, ← List.append_assoc,
        ← p.tagText_eq]
      exact List.drop_left
    obtain ⟨e, he, -⟩ :=
      fits_noneAvailableWording p.nameable p.ordinal p.spaced p.text.length _ _ hrest
    exact occursIn_iff.2 ⟨p.before, _, rfl, e, he⟩
  rw [solutionTextRemark?, hwording, hasSolutionType_eq_false h.type]
  simp

/-- **The day counts.** The script is sorted by the day that its sentence names. -/
theorem status_eq (h : p.IsUnsolved) (now : DateTime) :
    NoSolution.status now p.text = NoSolution.statusOfDay now p.day.atMidnight := by
  have htype : ((Tag.solutionType.pattern.find? p.text).any fun m =>
      m.group "value" != "NoneAvailable".toList) = false := by
    cases hfind : Tag.solutionType.pattern.find? p.text with
    | none => rfl
    | some m =>
        rw [← head?_findAll] at hfind
        rw [Option.any_some, h.type m (List.mem_of_mem_head? hfind)]
        exact bne_self_eq_false _
  obtain ⟨m, hm, hvalue⟩ := p.find?_solution h
  obtain ⟨m', gap₁, gap₂, hasOf, hgap₁, hgap₂, hdate⟩ :=
    find?_asOf p.nameable p.ordinal p.spaced
  have hread := readDay?_dayText p.nameable p.ordinal hgap₁ hgap₂
  unfold NoSolution.status
  rw [htype, h.severity, hm]
  simp only [hvalue, hasOf, hdate, hread, Bool.false_eq_true, if_false]

end DatedSolution

/-! ## Runs over many scripts -/

namespace NoSolution

section
variable {now : DateTime} {tree : FileTree} {here : Location} {root : Path}

/-- What is found about files and how they are sorted. Include files do not count. -/
inductive Judged (now : DateTime) (tree : FileTree) (root : Path) :
    List Path → List Finding → List Status → Prop
  | nil : Judged now tree root [] [] []
  | skip {file : Path} {files : List Path} {found : List Finding} {all : List Status}
      (hfile : file.isInclude = true) (h : Judged now tree root files found all) :
      Judged now tree root (file :: files) found all
  | cons {file : Path} {files : List Path} {found : List Finding} {all : List Status}
      {t : List Char} {finding : Option Finding} (hfile : file.isInclude = false)
      (hread : tree.readText file = .ok t)
      (hfinding : finding? tree.here root file (status now t) = .ok finding)
      (h : Judged now tree root files found all) :
      Judged now tree root (file :: files) (finding.toList ++ found) (status now t :: all)

variable {files files' : List Path} {found found' : List Finding} {all all' : List Status}

theorem Judged.append (h : Judged now tree root files found all)
    (h' : Judged now tree root files' found' all') :
    Judged now tree root (files ++ files') (found ++ found') (all ++ all') := by
  induction h with
  | nil => exact h'
  | skip hfile _ ih => exact .skip hfile ih
  | cons hfile hread hfinding _ ih =>
      rw [List.append_assoc]
      exact .cons hfile hread hfinding ih

theorem Judged.exists_append (h : Judged now tree root (files ++ files') found all) :
    ∃ found₁ found₂ all₁ all₂, Judged now tree root files found₁ all₁ ∧
      Judged now tree root files' found₂ all₂ ∧ found = found₁ ++ found₂ ∧ all = all₁ ++ all₂ := by
  induction files generalizing found all with
  | nil => exact ⟨[], found, [], all, .nil, h, rfl, rfl⟩
  | cons file files ih =>
      cases h with
      | skip hfile h =>
          obtain ⟨found₁, found₂, all₁, all₂, h₁, h₂, rfl, rfl⟩ := ih h
          exact ⟨found₁, found₂, all₁, all₂, .skip hfile h₁, h₂, rfl, rfl⟩
      | cons hfile hread hfinding h =>
          obtain ⟨found₁, found₂, all₁, all₂, h₁, h₂, rfl, rfl⟩ := ih h
          exact ⟨_, found₂, _, all₂, .cons hfile hread hfinding h₁, h₂, by simp, rfl⟩

/-- A run over files that can all be judged tells what is found about them, and then the summary. -/
theorem Judged.judgeAll (h : Judged now tree root files found all) (before : List Status) :
    judgeAll now tree root before files = .done (found ++ summary (before ++ all)) := by
  induction h generalizing before with
  | nil =>
      rw [NoSolution.judgeAll, List.append_nil]
      rfl
  | skip hfile _ ih =>
      rw [NoSolution.judgeAll, if_pos hfile]
      exact ih before
  | @cons file files found all t finding hfile hread hfinding _ ih =>
      rw [NoSolution.judgeAll, if_neg (by simp [hfile]), hread]
      simp only [hfinding]
      rw [ih, List.append_assoc]
      simp [Outcome.following, Outcome.done]

/-- A run that comes to its end has judged all files. -/
theorem exists_judged {before : List Status}
    (h : (judgeAll now tree root before files).fault = none) :
    ∃ found all, Judged now tree root files found all := by
  induction files generalizing before with
  | nil => exact ⟨[], [], .nil⟩
  | cons file files ih =>
      rw [judgeAll] at h
      by_cases hfile : file.isInclude = true
      · rw [if_pos hfile] at h
        obtain ⟨found, all, hjudged⟩ := ih h
        exact ⟨found, all, .skip hfile hjudged⟩
      rw [if_neg hfile] at h
      split at h
      · cases h
      · rename_i t hread
        simp only at h
        split at h
        · cases h
        · rename_i finding hfinding
          obtain ⟨found, all, hjudged⟩ := ih h
          exact ⟨_, _, .cons (by simpa using hfile) hread hfinding hjudged⟩

/-- What a run says of a file is said of one of its files by its status. -/
theorem exists_finding_of_mem {before : List Status} {x : Finding} {name : String}
    (h : x ∈ (judgeAll now tree root before files).results) (hname : x.file = some name) :
    ∃ file ∈ files, ∃ t, tree.readText file = .ok t ∧
      finding? tree.here root file (status now t) = .ok (some x) := by
  induction files generalizing before with
  | nil =>
      have hsummary : x ∈ summary before := h
      rw [summary] at hsummary
      split at hsummary
      · exact absurd hsummary List.not_mem_nil
      · simp only [List.mem_cons, List.not_mem_nil, or_false] at hsummary
        rcases hsummary with rfl | rfl | rfl | rfl <;> cases hname
  | cons file files ih =>
      have hlater {before : List Status} (h : x ∈ (judgeAll now tree root before files).results) :=
        (ih h).imp fun _ hp => hp.imp_left (List.mem_cons_of_mem file)
      rw [judgeAll] at h
      split at h
      · exact hlater h
      · split at h
        · exact absurd h List.not_mem_nil
        · rename_i t hread
          simp only at h
          split at h
          · exact absurd h List.not_mem_nil
          · rename_i finding hfinding
            rcases List.mem_append.1 h with h | h
            · rw [Option.mem_toList.1 h] at hfinding
              exact ⟨file, List.mem_cons_self, t, hread, hfinding⟩
            · exact hlater h

theorem statusOfDay_eq (now since : DateTime) :
    statusOfDay now since =
      if since.seconds + 365 * 86400 ≤ now.seconds then .olderThanYear
      else if since.seconds + 186 * 86400 ≤ now.seconds then .olderThanHalfYear
      else if now.seconds ≤ since.seconds + 31 * 86400 then .youngerThanMonth
      else .inBetween := by
  simp only [statusOfDay, DateTime.isDaysBefore, DateTime.isWithinDays, decide_eq_true_eq]

/-- A script that names a day counts as one without a solution. -/
theorem isMissing_statusOfDay (now since : DateTime) :
    (statusOfDay now since).isMissing = true := by
  unfold statusOfDay
  split
  · rfl
  · split
    · rfl
    · split <;> rfl

/-- What is said of a script that names a day is a warning about its age. -/
theorem remark?_statusOfDay {since : DateTime} {severity : Severity} {text : String}
    (h : (statusOfDay now since).remark? = some (severity, text)) :
    severity = .warning ∧ text.toList.head? = some 'M' := by
  unfold statusOfDay at h
  split at h
  · cases h
    exact ⟨rfl, by decide⟩
  · split at h
    · cases h
      exact ⟨rfl, by decide⟩
    · split at h
      · cases h
        exact ⟨rfl, by decide⟩
      · cases h

def totalFinding (n : Nat) : Finding :=
  { severity := .warning, message := s!"total missing solutions: {n}", check := some name }

theorem totalFinding_mem_summary {n : Nat} (h : all.countP Status.isMissing = n + 1) :
    totalFinding (n + 1) ∈ summary all := by
  have hmessage : s!"total missing solutions: {n + 1}" =
      "total missing solutions" ++ ": " ++ toString (n + 1) := by
    rw [show "total missing solutions" ++ ": " = "total missing solutions: " by decide]
    rfl
  rw [summary, h, if_neg (by omega), totalFinding, hmessage]
  exact List.mem_cons_self

theorem file_of_finding? {file : Path} {s : Status} {x : Finding}
    (h : finding? here root file s = .ok (some x)) : x.file = some file.toString := by
  unfold finding? at h
  split at h
  · cases h
  · split at h
    · cases h
    · cases h
      rfl

/-- There is something to say of a file below the root, or nothing. -/
theorem exists_finding? {file relative : Path} (hroot : file.fromRoot? root here = some relative)
    (s : Status) : ∃ finding, finding? here root file s = .ok finding := by
  unfold finding?
  split
  · exact ⟨_, rfl⟩
  · rw [hroot]
    exact ⟨_, rfl⟩

/-- What is said of a file that names a day is said about its age. -/
theorem finding?_statusOfDay {file relative : Path} {since : DateTime} {x : Finding}
    (hroot : file.fromRoot? root here = some relative)
    (h : finding? here root file (statusOfDay now since) = .ok (some x)) :
    ∃ text, (statusOfDay now since).remark? = some (.warning, text) ∧
      x = { severity := .warning, message := s!"{relative}: {text}", file := some file.toString,
            check := some name } ∧
      ¬ (relative.toString ++ ": Can not convert").toList <+: x.message.toList := by
  rw [finding?] at h
  split at h
  · cases h
  · rename_i severity text hremark
    obtain ⟨rfl, hhead⟩ := remark?_statusOfDay hremark
    rw [hroot] at h
    cases h
    refine ⟨text, hremark, rfl, ?_⟩
    intro hconvert
    have hlabel : ": Can not convert".toList = ": ".toList ++ 'C' :: "an not convert".toList := by
      decide
    have hmessage : (s!"{relative}: {text}").toList =
        relative.toString.toList ++ (": ".toList ++ text.toList) := by
      rw [← List.append_assoc, ← String.toList_append, ← String.toList_append]
      rfl
    rw [String.toList_append, hlabel, hmessage, List.prefix_append_right_inj,
      List.prefix_append_right_inj] at hconvert
    obtain ⟨r, hr⟩ := hconvert
    rw [← hr] at hhead
    exact absurd (Option.some.inj hhead) (by decide)

end

end NoSolution

/-! ## The sentence in a feed -/

/-- **The prescribed sentence is dated.** Of a script that says in the prescribed sentence that there
is no solution, whatever the day and wherever the lines break, one check says nothing. The other one
goes by the days that have passed since the one that the sentence names, so it never says that the day
cannot be read, and the script adds one to the number of those without a solution. -/
theorem prescribed_solution_dated (p : DatedSolution) (hp : p.IsUnsolved) {w : Surroundings}
    {root file relative : Path} (hread : w.tree.readText file = .ok p.text)
    (hscript : file.isInclude = false) (hroot : file.fromRoot? root w.tree.here = some relative) :
    solutionText.findings (.ofTree w.tree root file) w = .done [] ∧
    NoSolution.status w.now p.text = NoSolution.statusOfDay w.now p.day.atMidnight ∧
    NoSolution.statusOfDay w.now p.day.atMidnight =
      (if p.day.atMidnight.seconds + 365 * 86400 ≤ w.now.seconds then .olderThanYear
      else if p.day.atMidnight.seconds + 186 * 86400 ≤ w.now.seconds then .olderThanHalfYear
      else if w.now.seconds ≤ p.day.atMidnight.seconds + 31 * 86400 then .youngerThanMonth
      else .inBetween) ∧
    (∀ files, (∀ q ∈ files, q.Denoted) → file ∈ files →
      ∀ x ∈ (noSolution.run ⟨root, files⟩ w).results, x.file = some file.toString →
        ∃ text, (NoSolution.statusOfDay w.now p.day.atMidnight).remark? = some (.warning, text) ∧
          x = { severity := .warning, message := s!"{relative}: {text}", file := some file.toString,
                check := some NoSolution.name } ∧
          ¬ (relative.toString ++ ": Can not convert").toList <+: x.message.toList) ∧
    ∀ before after, (noSolution.run ⟨root, before ++ after⟩ w).fault = none →
      ∃ found₁ found₂ all₁ all₂ finding,
        NoSolution.Judged w.now w.tree root before found₁ all₁ ∧
        NoSolution.Judged w.now w.tree root after found₂ all₂ ∧
        NoSolution.finding? w.tree.here root file
          (NoSolution.statusOfDay w.now p.day.atMidnight) = .ok finding ∧
        noSolution.run ⟨root, before ++ file :: after⟩ w = .done (found₁ ++ (finding.toList ++
          found₂) ++ NoSolution.summary
            (all₁ ++ NoSolution.statusOfDay w.now p.day.atMidnight :: all₂)) ∧
        NoSolution.totalFinding ((all₁ ++ all₂).countP NoSolution.Status.isMissing + 1) ∈
          (noSolution.run ⟨root, before ++ file :: after⟩ w).results := by
  have hstatus := p.status_eq hp w.now
  refine ⟨?_, hstatus, NoSolution.statusOfDay_eq _ _, ?_, ?_⟩
  · have hrun : solutionText.run (.ofTree w.tree root file) w = .done [] := by
      simp only [solutionText, Subject.onText, Subject.withText, text_ofTree hread,
        p.solutionTextRemark?_eq hp, Option.toList_none]
    rw [FileCheck.findings, hrun]
    rfl
  · intro files hfiles hfile x hx hname
    obtain ⟨q, hq, t, ht, hfinding⟩ := NoSolution.exists_finding_of_mem hx hname
    -- different files are written differently, so the finding is about this one
    obtain rfl : q = file := by
      rw [NoSolution.file_of_finding? hfinding] at hname
      exact Path.toString_inj (hfiles q hq) (hfiles file hfile) (Option.some.inj hname)
    obtain rfl : p.text = t := Except.ok.inj (hread.symm.trans ht)
    rw [hstatus] at hfinding
    exact NoSolution.finding?_statusOfDay hroot hfinding
  · intro before after hfault
    obtain ⟨_, _, hjudged⟩ := NoSolution.exists_judged hfault
    obtain ⟨found₁, found₂, all₁, all₂, hbefore, hafter, -, -⟩ := hjudged.exists_append
    obtain ⟨finding, hfinding⟩ := NoSolution.exists_finding? hroot
      (NoSolution.statusOfDay w.now p.day.atMidnight)
    have hrun := (hbefore.append (.cons hscript hread (hstatus ▸ hfinding) hafter)).judgeAll []
    rw [hstatus, List.nil_append] at hrun
    refine ⟨found₁, found₂, all₁, all₂, finding, hbefore, hafter, hfinding, hrun, ?_⟩
    have hcount : (all₁ ++ NoSolution.statusOfDay w.now p.day.atMidnight :: all₂).countP
        NoSolution.Status.isMissing = (all₁ ++ all₂).countP NoSolution.Status.isMissing + 1 := by
      rw [List.countP_append, List.countP_cons_of_pos (NoSolution.isMissing_statusOfDay _ _),
        List.countP_append]
      rfl
    rw [show (noSolution.run ⟨root, before ++ file :: after⟩ w).results = _ from
      congrArg Outcome.results hrun]
    exact List.mem_append_right _ (NoSolution.totalFinding_mem_summary hcount)

/-- A script with a line break between any two words of its sentence, within the day too. -/
def brokenSentence : DatedSolution where
  day := ⟨2020, 2, 29⟩
  suffix := "st"
  sentence := "\n  ".toList.intercalate (noneAvailableWords ⟨2020, 2, 29⟩ "st")
  before := ("script_tag(name:\"cvss_base\", value:\"5.0\");\n" ++
    "script_tag(name:\"solution_type\", value:\"NoneAvailable\");\n").toList
  behind := ['\n']
  nameable := ⟨by decide, by decide, by decide⟩
  ordinal := by decide
  spaced := spaced_intercalate ⟨by decide, List.all_eq_true.1 (by decide)⟩
    (by simp [noneAvailableWords])

/-- A leap day that lies half a year back. -/
theorem prescribed_solution_dated_of_lineBreaks :
    let tree : FileTree := { entries := [(["a.nasl"], .file 0o644 (toLatin1 brokenSentence.text))] }
    let w : Surroundings := { tree, now := ⟨⟨2020, 9, 15⟩, 12, 0, 0⟩ }
    let root : Path := ⟨"/", []⟩
    let file : Path := ⟨"/", ["a.nasl"]⟩
    brokenSentence.IsUnsolved ∧ tree.readText file = .ok brokenSentence.text ∧
    file.isInclude = false ∧ file.fromRoot? root tree.here = some ⟨"", ["a.nasl"]⟩ ∧
    solutionText.findings (.ofTree tree root file) w = .done [] ∧
    NoSolution.status w.now brokenSentence.text = .olderThanHalfYear ∧
    NoSolution.totalFinding 1 ∈ (noSolution.run ⟨root, [file]⟩ w).results := by
  intro tree w root file
  obtain ⟨hp, hstored⟩ : brokenSentence.IsUnsolved ∧ Stored brokenSentence.text := by
    decide +kernel
  have hread : tree.readText file = .ok brokenSentence.text :=
    FileTree.readText_eq_ok_iff.2 ⟨_, rfl, hstored.read_write⟩
  have hscript : file.isInclude = false := by decide
  have hroot : file.fromRoot? root tree.here = some ⟨"", ["a.nasl"]⟩ := by decide
  obtain ⟨hcontent, hstatus, -, -, hcounts⟩ :=
    prescribed_solution_dated brokenSentence hp (w := w) hread hscript hroot
  obtain ⟨_, _, _, _, _, hbefore, hafter, -, -, htotal⟩ := hcounts [] [] rfl
  cases hbefore
  cases hafter
  exact ⟨hp, hread, hscript, hroot, hcontent, hstatus.trans (by decide), htotal⟩

end Checks

end NaslLint
