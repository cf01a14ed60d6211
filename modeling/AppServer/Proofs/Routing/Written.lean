import AppServer.Proofs.Routing.Dispatch
import AppServer.Proofs.Routing.Listing
import AppServer.Proofs.Text.Pieces

/-!
# Paths written like a pattern

A path is written like a pattern if it has the text of every literal and, for every parameter, a segment
that looks like one. No literal looks like a parameter, so every pattern that accepts such a path has
parameters at the same places and maybe at more of them: none is more specific. Hence a request for such
a path is served by what is registered on the pattern. Among such paths are the text of the pattern
itself, and every path that a pattern without parameters accepts.
-/

namespace AppServer.Routing

open AppServer.Http AppServer.Pipeline AppServer.Text

variable {σ : Type}

/-- A segment that begins like a parameter. -/
def LooksLikeParam (value : String) : Prop :=
  value.toList.head? = some ':' ∨ value.toList.head? = some '\x7b'

namespace Segment

theorem not_looksLikeParam_of_literal {text : String} (h : IsRead (.literal text)) :
    ¬ LooksLikeParam text := by
  cases h with
  | literal segment noColon noBrace =>
      rintro (hcolon | hbrace)
      · exact noColon hcolon
      · obtain ⟨tail, htail⟩ := List.head?_eq_some_iff.mp hbrace
        rw [htail] at noBrace
        simp [isBrace] at noBrace

/-- The text of a segment is accepted, and looks like a parameter if it is one. -/
theorem written_of_read {part : String} {s : Segment} (hpart : IsSegment part)
    (h : read part.toList = .ok s) :
    s.accepts part = true ∧ (s.isParam = true → LooksLikeParam part) := by
  have hnonempty : (!part.isEmpty) = true := by
    simpa using hpart.ne_empty
  unfold read at h
  split at h
  · rename_i name hshape
    obtain ⟨rfl, -, -⟩ := ofName_eq_ok_iff.mp h
    exact ⟨hnonempty, fun _ => .inl (by rw [hshape]; rfl)⟩
  · rename_i rest hshape
    split at h
    · obtain ⟨rfl, -, -⟩ := ofName_eq_ok_iff.mp h
      exact ⟨hnonempty, fun _ => .inr (by rw [hshape]; rfl)⟩
    · cases h
  · split at h
    · cases h
    · cases h
      rw [String.ofList_toList]
      exact ⟨beq_self_eq_true part, fun hparam => nomatch hparam⟩

/-- What a parameter accepts is not empty, so it begins like every text that it is the front of. -/
theorem head?_of_prefix {s : Segment} {value part : String} (hparam : s.isParam = true)
    (haccepts : s.accepts value = true) (hfront : value.toList <+: part.toList) :
    part.toList.head? = value.toList.head? := by
  cases s with
  | literal text => cases hparam
  | param name =>
      have hne : value.toList ≠ [] := by
        intro hnil
        have hempty : value = "" := String.toList_inj.mp hnil
        rw [hempty] at haccepts
        cases haccepts
      obtain ⟨tail, htail⟩ := hfront
      rw [← htail, List.head?_append_of_ne_nil _ hne]

/-- A segment that accepts what looks like a parameter is one. -/
theorem isParam_of_accepts {s : Segment} {value : String} (hread : s.IsRead)
    (haccepts : s.accepts value = true) (hlooks : LooksLikeParam value) : s.isParam = true := by
  cases s with
  | literal text =>
      obtain rfl : text = value := by simpa [accepts] using haccepts
      exact absurd hlooks (not_looksLikeParam_of_literal hread)
  | param name => rfl

end Segment

namespace Pattern

/-- The path has the text of every literal, and a text like a parameter for every parameter. -/
def WrittenAs (p : Pattern) (parts : List String) : Prop :=
  List.Forall₂ (fun s value => s.accepts value = true ∧ (s.isParam = true → LooksLikeParam value))
    p.segments parts

variable {p q : Pattern} {parts : List String}

theorem WrittenAs.accepts (h : p.WrittenAs parts) : p.accepts parts = true :=
  accepts_iff.mpr (h.imp fun _ _ hboth => hboth.1)

/-- Without parameters there is but one way to write a path that is accepted. -/
theorem writtenAs_of_literals (hliteral : ∀ s ∈ p.segments, s.isParam = false)
    (h : p.accepts parts = true) : p.WrittenAs parts := by
  rw [accepts_iff] at h
  unfold WrittenAs
  generalize p.segments = segs at h hliteral
  induction h with
  | nil => exact .nil
  | cons ha _ ih =>
      obtain ⟨hs, hrest⟩ := List.forall_mem_cons.mp hliteral
      refine .cons ⟨ha, fun hparam => ?_⟩ (ih hrest)
      rw [hs] at hparam
      cases hparam

theorem writtenAs_of_readSegments {done segs : List Segment}
    (hparts : ∀ part ∈ parts, IsSegment part) (h : readSegments done parts = .ok segs) :
    ∃ more, segs = done ++ more ∧ WrittenAs ⟨more⟩ parts := by
  induction parts generalizing done with
  | nil =>
      cases h
      exact ⟨[], (List.append_nil _).symm, .nil⟩
  | cons part parts ih =>
      obtain ⟨hpart, hparts⟩ := List.forall_mem_cons.mp hparts
      obtain ⟨s, hs, -, hrest⟩ := readSegments_cons_eq_ok_iff.mp h
      obtain ⟨more, rfl, hmore⟩ := ih hparts hrest
      refine ⟨s :: more, ?_, .cons (Segment.written_of_read hpart hs) hmore⟩
      rw [List.append_assoc, List.singleton_append]

/-- The text of a pattern is a path that is written like it. -/
theorem writtenAs_of_parse {text : String} (h : parse text = .ok p) :
    p.WrittenAs (Text.segments text) := by
  unfold parse at h
  split at h
  · cases hsegs : readSegments [] (Text.segments text) with
    | error e =>
        rw [hsegs] at h
        cases h
    | ok segs =>
        rw [hsegs] at h
        cases h
        obtain ⟨more, rfl, hmore⟩ :=
          writtenAs_of_readSegments (fun _ hpart => isSegment_of_mem_segments hpart) hsegs
        exact hmore
  · cases h

/-- A path that begins, segment by segment, what is written like a pattern is so itself as long as the
pattern accepts it. -/
theorem WrittenAs.of_prefixes {values : List String} (h : p.WrittenAs parts)
    (hfront : List.Forall₂ (fun value part => value.toList <+: part.toList) values parts)
    (haccepts : p.accepts values = true) : p.WrittenAs values := by
  rw [accepts_iff] at haccepts
  unfold WrittenAs at h ⊢
  generalize p.segments = segs at h haccepts
  induction haccepts generalizing parts with
  | nil => exact .nil
  | @cons s value segs values hvalue _ ih =>
      cases hfront with
      | @cons _ part _ parts hhead htail =>
          cases h with
          | cons hpart hrest =>
              refine .cons ⟨hvalue, fun hparam => ?_⟩ (ih htail hrest)
              have hlooks := hpart.2 hparam
              unfold LooksLikeParam at hlooks ⊢
              rwa [← Segment.head?_of_prefix hparam hvalue hhead]

/-- The front of a path from which a pattern was read is written like the pattern as long as the pattern
accepts it. -/
theorem writtenAs_of_front {text front : String} (hparse : parse text = .ok p)
    (hfront : front.toList <+: text.toList) (haccepts : p.accepts (Text.segments front) = true) :
    p.WrittenAs (Text.segments front) := by
  have hwritten := writtenAs_of_parse hparse
  obtain ⟨before, after, hparts, hfronts⟩ := segments_of_prefix hfront
  -- as many segments as the pattern has are all that the whole path has
  have hlength := (accepts_iff.mp haccepts).length_eq.symm.trans hwritten.length_eq
  rw [hfronts.length_eq, hparts, List.length_append, Nat.left_eq_add, List.length_eq_zero_iff]
    at hlength
  rw [hlength, List.append_nil] at hparts
  rw [← hparts] at hfronts
  exact hwritten.of_prefixes hfronts haccepts

theorem WrittenAs.paramCount_le (h : p.WrittenAs parts) (hq : q.IsRead)
    (haccepts : q.accepts parts = true) : p.paramCount ≤ q.paramCount := by
  have hread := hq.segments
  rw [accepts_iff] at haccepts
  unfold WrittenAs at h
  unfold paramCount
  generalize p.segments = ss at h
  generalize q.segments = ts at haccepts hread
  induction h generalizing ts with
  | nil => exact Nat.zero_le _
  | @cons s value ss values hs _ ih =>
      cases haccepts with
      | @cons t _ ts _ ht hrest =>
          obtain ⟨htread, htsread⟩ := List.forall_mem_cons.mp hread
          have hle := ih ts hrest htsread
          rw [List.countP_cons, List.countP_cons]
          by_cases hparam : s.isParam = true
          · have ht' := Segment.isParam_of_accepts htread ht (hs.2 hparam)
            rw [if_pos hparam, if_pos ht']
            exact Nat.succ_le_succ hle
          · rw [if_neg hparam]
            exact Nat.le_add_right_of_le hle

end Pattern

namespace Router

open Registration

variable {r : Router σ} {regs : List (Registration σ)} {m : Method} {path rest : String}
  {reg : Registration σ}

theorem Lists.mostSpecific_of_writtenAs (hr : r.Lists regs) {parts : List String}
    (hreg : reg ∈ regs) (hoffers : reg.Offers m) (h : reg.pattern.WrittenAs parts) :
    MostSpecific regs m parts reg.pattern where
  accepts := h.accepts
  offered := ⟨reg, hreg, hoffers, rfl⟩
  fewest other hother _ haccepts hne := by
    have hle := h.paramCount_le (hr.read other hother).pattern haccepts
    refine Nat.lt_of_le_of_ne hle fun hcount => hne ?_
    exact hr.eq_of_accepts hother hreg hcount.symm haccepts h.accepts

/-- What serves a method on a pattern is found for every path that is written like the pattern. -/
theorem Lists.lookup_of_writtenAs (hr : r.Lists regs) (hunder : Under r.mount path rest)
    (hserves : Serves regs m reg) (h : reg.pattern.WrittenAs (segments rest)) :
    r.lookup m path =
      .found (r.filters.chain reg.service) (reg.pattern.capture (segments rest)) reg.pattern := by
  have hoffers : reg.Offers m := hserves.offers
  exact hr.lookup_of_mostSpecific hunder (hr.mostSpecific_of_writtenAs hserves.1 hoffers h) hserves

end Router

end AppServer.Routing
