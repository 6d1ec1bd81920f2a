import Ntprof.Lib.CountTable
import Ntprof.SpdkProcs

/-!
# The probes of a file

A compiler leaves a note for each site of a probe: three addresses, then the provider, the name and the arguments as
strings. `ntp_spdk_list_probes` counts the sites of the probes of `ntprof` by their names.
-/

namespace Ntprof.Spdk

/-! ## The notes -/

/-- A site of a probe. -/
structure Site where
  addrs : List U8
  provider : List U8
  name : List U8
  args : List U8

/-- The note of a site. -/
def Site.note (s : Site) : Note :=
  { type := ntStapsdt, name := text "stapsdt" ++ [0], desc := s.addrs ++ (s.provider ++ 0 :: (s.name ++ 0 :: s.args)) }

/-- What is in a note for a file of the class: three addresses of its size, and strings. -/
structure Site.Emitted (class32 : Bool) (s : Site) : Prop where
  addrs : s.addrs.length = 3 * if class32 then 4 else 8
  provider : 0 ∉ s.provider
  name : 0 ∉ s.name

/-- A note of a probe, whoever the provider is. -/
def Note.isStapsdt (n : Note) : Bool := n.type = ntStapsdt ∧ n.name = text "stapsdt" ++ [0]

/-- The string at the start of a buffer, and what follows it. -/
theorem textOf_append {s : List U8} (hs : 0 ∉ s) (rest : List U8) :
    textOf (s ++ 0 :: rest) = s ∧ (s ++ 0 :: rest).dropWhile (fun c => c ≠ 0) = 0 :: rest := by
  have hall : ∀ c ∈ s, decide (c ≠ 0) = true := by
    intro c hc
    exact decide_eq_true fun h => hs (h ▸ hc)
  constructor
  · rw [textOf, List.takeWhile_append_of_pos hall, List.takeWhile_cons, if_neg (by decide), List.append_nil]
  · rw [List.dropWhile_append_of_pos hall, List.dropWhile_cons, if_neg (by decide)]

theorem contains_zero (s rest : List U8) : (s ++ 0 :: rest).contains 0 = true := by simp

/-- The name of a site is read from its note, when the provider is `ntprof`. -/
theorem probeName_note {class32 : Bool} {s : Site} (h : s.Emitted class32) :
    probeName class32 s.note = if s.provider = provider then some s.name else none := by
  have hprov := textOf_append h.provider (s.name ++ 0 :: s.args)
  have hname := textOf_append h.name s.args
  have hdrop : s.note.desc.drop (3 * if class32 then 4 else 8) = s.provider ++ 0 :: (s.name ++ 0 :: s.args) := by
    rw [← h.addrs]
    exact List.drop_left
  have hlong : ¬ s.note.desc.length ≤ 3 * if class32 then 4 else 8 := by
    rw [← h.addrs, Site.note, List.length_append, List.length_append, List.length_cons]
    omega
  have hone : (s.name ++ 0 :: s.args).length ≠ 0 := by
    rw [List.length_append, List.length_cons]
    omega
  simp only [probeName, hdrop, contains_zero, hprov, hname, hlong, or_false, List.drop_succ_cons, List.drop_zero, hone,
    Bool.not_true, Bool.false_eq_true, if_false, false_or]
  rw [if_neg (show ¬ (s.note.type ≠ ntStapsdt ∨ s.note.name ≠ text "stapsdt" ++ [0]) from
    not_or.mpr ⟨fun h => h rfl, fun h => h rfl⟩)]
  by_cases hours : s.provider = provider
  · rw [if_pos hours, if_neg (not_not.mpr hours)]
  · rw [if_neg hours, if_pos hours]

/-- Other notes are passed over. -/
theorem probeName_other {class32 : Bool} {n : Note} (h : ¬ n.isStapsdt = true) : probeName class32 n = none := by
  have hnot : n.type ≠ ntStapsdt ∨ n.name ≠ text "stapsdt" ++ [0] := by
    by_contra hboth
    rw [not_or, not_not, not_not] at hboth
    exact h (decide_eq_true hboth)
  rw [probeName]
  exact if_pos (or_assoc.mp (Or.inl hnot))

/-- The names that are read from notes are those of the sites. -/
theorem filterMap_probeName {class32 : Bool} {notes : List Note} {sites : List Site}
    (hsites : ∀ s ∈ sites, s.Emitted class32) (hnotes : notes.filter Note.isStapsdt = sites.map Site.note) :
    notes.filterMap (probeName class32) = (sites.filter fun s => s.provider = provider).map Site.name := by
  have hskip : notes.filterMap (probeName class32) = (notes.filter Note.isStapsdt).filterMap (probeName class32) := by
    rw [List.filterMap_filter]
    apply List.filterMap_congr
    intro n _
    by_cases hn : n.isStapsdt = true
    · rw [if_pos hn]
    · rw [if_neg hn, probeName_other hn]
  rw [hskip, hnotes, List.filterMap_map]
  clear hskip hnotes
  induction sites with
  | nil => rfl
  | cons s sites ih =>
    have hhead := probeName_note (hsites s List.mem_cons_self)
    have hrec := ih fun x hx => hsites x (List.mem_cons_of_mem _ hx)
    by_cases hours : s.provider = provider
    · rw [if_pos hours] at hhead
      rw [List.filterMap_cons_some (f := probeName class32 ∘ Site.note) hhead,
        List.filter_cons, if_pos (decide_eq_true hours), List.map_cons, hrec]
    · rw [if_neg hours] at hhead
      rw [List.filterMap_cons_none (f := probeName class32 ∘ Site.note) hhead,
        List.filter_cons, if_neg fun h => hours (of_decide_eq_true h), hrec]

/-! ## The table -/

/-- A site of a probe whose name fits. -/
theorem addSite_eq {name : List U8} (h : name.length < probeNameSize) (t : ProbeTable) :
    addSite t name = { probes := CountTable.bump maxProbes t.probes name, total := t.total + 1 } := by
  have hcut : cutText probeNameSize name = name := List.take_of_length_le (by omega)
  rw [addSite, CountTable.bump]
  rcases hfind : t.probes.findIdx? fun p => p.1 = name with _ | i
  · simp only [hfind, hcut]
    split_ifs <;> rfl
  · simp only [hfind]

theorem foldl_addSite {names : List (List U8)} (h : ∀ n ∈ names, n.length < probeNameSize) (t : ProbeTable) :
    names.foldl addSite t =
      { probes := names.foldl (CountTable.bump maxProbes) t.probes, total := t.total + names.length } := by
  induction names generalizing t with
  | nil => rfl
  | cons n names ih =>
    rw [List.foldl_cons, List.foldl_cons, addSite_eq (h n List.mem_cons_self),
      ih fun x hx => h x (List.mem_cons_of_mem _ hx), List.length_cons, Nat.add_assoc, Nat.add_comm 1]

/-- For a file with the notes of the sites, among others, and names that fit: `ntp_spdk_list_probes` returns the number
of the sites of `ntprof` and prints each of the first 64 names once, with the number of its sites; when there are no
more names, the numbers sum to what is returned. -/
theorem spdk_probes_are_counted (sys : System) (path : List U8) (f : ElfFile) (sites : List Site)
    (hf : sys.elf path = some f) (hsites : ∀ s ∈ sites, s.Emitted f.class32)
    (hnotes : (f.sections.flatMap Section.noteList).filter Note.isStapsdt = sites.map Site.note)
    (hshort : ∀ s ∈ sites, s.provider = provider → s.name.length < probeNameSize) :
    ∃ t, ntpSpdkListProbes sys path = some t ∧
      t.total = (sites.filter fun s => s.provider = provider).length ∧
      t.probes = CountTable.table maxProbes ((sites.filter fun s => s.provider = provider).map Site.name) ∧
      ((CountTable.distinct ((sites.filter fun s => s.provider = provider).map Site.name)).length ≤ maxProbes →
        (t.probes.map Prod.snd).sum = t.total) := by
  have hnames := filterMap_probeName hsites hnotes
  have hfit : ∀ n ∈ (sites.filter fun s => s.provider = provider).map Site.name, n.length < probeNameSize := by
    intro n hn
    obtain ⟨s, hs, rfl⟩ := List.mem_map.mp hn
    obtain ⟨hmem, hours⟩ := List.mem_filter.mp hs
    exact hshort s hmem (of_decide_eq_true hours)
  refine ⟨_, by rw [ntpSpdkListProbes, hf, Option.map_some, hnames, foldl_addSite hfit, CountTable.foldl_bump], ?_, rfl,
    fun hroom => ?_⟩
  · show 0 + _ = _
    rw [Nat.zero_add, List.length_map]
  · show _ = 0 + _
    rw [Nat.zero_add]
    exact CountTable.sum_table hroom

/-- A file with two sites of a probe and one of another provider. -/
def probeSites : List Site :=
  [{ addrs := List.replicate 24 0, provider := provider, name := [0x71#8], args := [] },
   { addrs := List.replicate 24 0, provider := [0x78#8], name := [0x71#8], args := [] },
   { addrs := List.replicate 24 0, provider := provider, name := [0x71#8], args := [0x34#8, 0] }]

def probeFile : ElfFile :=
  { exec := false, class32 := false, phdrs := [], sections := [.other, .notes (probeSites.map Site.note)] }

def probeSystem : System := { realpath := some, elf := fun _ => some probeFile, page := 4096, self := 1, proc := none }

theorem spdk_probes_of_three_sites :
    ∃ t, ntpSpdkListProbes probeSystem [0x61#8] = some t ∧ t.total = 2 ∧ t.probes = [([0x71#8], 2)] := by
  obtain ⟨t, ht, htotal, hprobes, -⟩ := spdk_probes_are_counted probeSystem [0x61#8] probeFile probeSites rfl
    (fun s hs => by
      simp only [probeSites, List.mem_cons, List.not_mem_nil, or_false] at hs
      rcases hs with rfl | rfl | rfl <;> exact ⟨by decide, by decide, by decide⟩)
    rfl (fun s hs _ => by
      simp only [probeSites, List.mem_cons, List.not_mem_nil, or_false] at hs
      rcases hs with rfl | rfl | rfl <;> decide)
  exact ⟨t, ht, htotal.trans (by decide), hprobes.trans (by decide)⟩

end Ntprof.Spdk
