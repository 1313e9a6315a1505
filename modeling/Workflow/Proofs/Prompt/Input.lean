import Workflow.Proofs.Prompt.Rendering
import Workflow.Proofs.Prompt.Shadowing

/-!
# The input of a step in its prompt

The body of a prompt asks for the input of a step by a placeholder for it or for a part of it.
Whether the input still has to be sent after the body is decided by a search for two texts, and that
is another question: `mentionsInput_iff` tells where the texts are found among the pieces of the
body. If they are found where nothing asks for the input, it is sent in no way, and if they are not
found where something does, it is sent twice. `carriesOnce_compose_iff` says that these are all the
cases in which it is not sent just once.
-/

namespace Workflow

open Json (Value Members)

/-! ## Words after openings -/

namespace Template

/-- A word follows an opening in a piece of a template: that of a placeholder, another one inside
the placeholder, which may share a brace with the first, or one in literal text. -/
def Chunk.Shows (word : List Char) : Chunk → Prop
  | .literal text => opening ++ word <:+: text
  | .placeholder inner => word <+: inner ∨ opening ++ word <:+: '\x7b' :: inner

instance (word : List Char) : DecidablePred (Chunk.Shows word) := by
  intro ch
  cases ch with
  | literal text => exact inferInstanceAs (Decidable (_ <:+: _))
  | placeholder inner => exact inferInstanceAs (Decidable (_ ∨ _))

theorem isInfix_opening_iff {word inner : List Char} :
    opening ++ word <:+: opening ++ inner ↔ (Chunk.placeholder inner).Shows word := by
  have hopening : opening ++ inner = '\x7b' :: '\x7b' :: inner := rfl
  rw [hopening, List.infix_cons_iff, ← hopening, List.prefix_append_right_inj, Chunk.Shows]

theorem Chunk.Shows.isInfix {word : List Char} {ch : Chunk} (h : ch.Shows word) :
    opening ++ word <:+: ch.source := by
  cases ch with
  | literal text => exact h
  | placeholder inner => exact (isInfix_opening_iff.2 h).trans (List.prefix_append _ _).isInfix

/-- **Where a word follows an opening.** If a word has no closing brace, it follows an opening in a
template just if it does so in one of the pieces. -/
theorem isInfix_iff_shows {word t : List Char} (hclose : '\x7d' ∉ word) :
    opening ++ word <:+: t ↔ ∃ ch ∈ chunks t, ch.Shows word := by
  have hnot : '\x7d' ∉ opening ++ word := by simp [opening, hclose]
  constructor
  · intro h
    have hpieces := pieces_chunks t
    generalize chunks t = cs at hpieces ⊢
    induction hpieces with
    | plain _ | unclosed _ _ => exact ⟨_, List.mem_singleton_self _, h⟩
    | @closed t before after inner rest cs hcut hclosed _ ih =>
      have hafter : opening ++ word <:+: opening ++ inner ++ '\x7d' :: '\x7d' :: rest := by
        have heq : opening ++ after = opening ++ inner ++ '\x7d' :: '\x7d' :: rest := by
          rw [hclosed.eq]
          simp [closing]
        exact heq ▸ hcut.isInfix_append (List.prefix_append _ _) h
      -- the closing cannot be inside what is found, so that stands before it or after it
      rcases Text.isInfix_of_notMem hnot hafter with hinner | hbeyond
      · exact ⟨.placeholder inner, by simp, isInfix_opening_iff.1 hinner⟩
      · rcases Text.isInfix_of_notMem (x := []) hnot hbeyond with hnil | hrest
        · cases List.infix_nil.1 hnil
        · obtain ⟨ch, hch, hshows⟩ := ih hrest
          exact ⟨ch, by simp [hch], hshows⟩
  · rintro ⟨ch, hch, hshows⟩
    rw [← chunks_source t]
    obtain ⟨before, after, hcs⟩ := List.append_of_mem hch
    rw [hcs, List.flatMap_append, List.flatMap_cons]
    exact hshows.isInfix.trans (List.infix_append' _ _ _)

/-- A placeholder for the input of a step, or for what a path leads to in it. -/
def Chunk.AsksForInput : Chunk → Prop
  | .literal _ => False
  | .placeholder inner =>
    Text.trim inner = "input".toList ∨ "input.".toList <+: Text.trim inner

instance : DecidablePred Chunk.AsksForInput := by
  intro ch
  cases ch with
  | literal _ => exact .isFalse id
  | placeholder inner => exact inferInstanceAs (Decidable (_ ∨ _))

end Template

namespace Prompt

open Template (chunks)

/-! ## Asking and showing -/

/-- The body of a prompt asks for the input of its step. -/
def AsksForInput (body : String) : Prop := ∃ ch ∈ chunks body.toList, ch.AsksForInput

instance (body : String) : Decidable (AsksForInput body) :=
  inferInstanceAs (Decidable (∃ ch ∈ chunks body.toList, ch.AsksForInput))

/-- Somewhere in the body of a prompt the word for the input follows an opening, at once or after
one space; what comes after the word does not count. -/
def ShowsInput (body : String) : Prop :=
  ∃ ch ∈ chunks body.toList, ch.Shows " input".toList ∨ ch.Shows "input".toList

instance (body : String) : Decidable (ShowsInput body) :=
  inferInstanceAs (Decidable (∃ ch ∈ chunks body.toList, _ ∨ _))

/-- What a body is searched for is this. -/
theorem mentionsInput_iff {body : String} : mentionsInput body = true ↔ ShowsInput body := by
  rw [mentionsInput, Bool.or_eq_true, Text.occursIn_iff, Text.occursIn_iff,
    Template.isInfix_iff_shows (by decide), Template.isInfix_iff_shows (by decide), ← exists_or]
  simp only [ShowsInput, and_or_left]

/-! ## Rendering with an input -/

/-- A path whose head is the word for the input is the input or leads into it. -/
theorem asksForInput_of_head {inner : List Char} {key : String} (hkey : Template.IsKey inner key)
    (hhead : head key = "input") : (Template.Chunk.placeholder inner).AsksForInput := by
  have hstart : key.toList.takeWhile (· != '.') = "input".toList := by
    rw [← hhead, head, String.toList_ofList]
  have hsplit := List.takeWhile_append_dropWhile (p := (· != '.')) (l := key.toList)
  rw [hstart, hkey.trimmed] at hsplit
  rw [Template.Chunk.AsksForInput, ← hsplit]
  cases hrest : (Text.trim inner).dropWhile (· != '.') with
  | nil => exact .inl (List.append_nil _)
  | cons c rest =>
    have hdot : c = '.' := by
      have hnot := List.head?_dropWhile_not (· != '.') (Text.trim inner)
      rw [hrest] at hnot
      simpa using hnot
    rw [hdot]
    exact .inr ⟨rest, rfl⟩

variable {s : Scope} {body : String}

theorem Scope.lookup_withInput_of_ne {key : String} (h : head key ≠ "input") (v : Value) :
    (s.withInput v).lookup key = s.lookup key := by
  rw [lookup, lookup, withInput, Members.get?_insert, if_neg (Ne.symm h)]

/-- A body that does not ask for the input is rendered as if there were none. -/
theorem render_withInput_of_not_asks (h : ¬AsksForInput body) (v : Value) :
    (s.withInput v).render body = s.render body := by
  refine Template.render_congr fun key hasks ↦ ?_
  obtain ⟨inner, hinner, hkey⟩ := hasks
  refine Scope.lookup_withInput_of_ne (fun hhead ↦ h ?_) v
  exact ⟨_, hinner, asksForInput_of_head hkey hhead⟩

/-- A body with a placeholder for all of the input is rendered with its text inside. -/
theorem isInfix_render_withInput (h : Template.Asks body "input") (v : Value) :
    v.plainText.toList <:+: ((s.withInput v).render body).toList := by
  obtain ⟨inner, hinner, hkey⟩ := h
  have hlookup : (s.withInput v).lookup "input" = some v := by
    have hhead : head "input" = "input" := by decide
    have hsegments : Text.segments "input" = ["input"] := by decide
    rw [Scope.lookup, Scope.withInput, Members.get?_insert, if_pos hhead.symm, hsegments]
    rfl
  have htext : (Template.Chunk.placeholder inner).render (s.withInput v).lookup =
      v.plainText.toList := by
    rw [Template.Chunk.render, Template.key?_eq_some_iff.2 hkey, Option.bind_some, hlookup]
  obtain ⟨before, after, hcs⟩ := List.append_of_mem hinner
  rw [Scope.render, Template.render, String.toList_ofList, hcs, List.flatMap_append,
    List.flatMap_cons, htext]
  exact List.infix_append' _ _ _

/-! ## What is sent -/

/-- A prompt carries an input once: in its body, if that asks for the input, and otherwise after its
body and a blank line. -/
structure CarriesOnce (body rendered input sent : String) : Prop where
  inBody : AsksForInput body → sent = rendered
  afterBody : ¬AsksForInput body → sent = rendered ++ "\n\n" ++ input

theorem append_ne_self (rendered input : String) : rendered ++ "\n\n" ++ input ≠ rendered := by
  intro h
  have hlen := congrArg String.length h
  simp only [String.length_append] at hlen
  have htwo : "\n\n".length = 2 := by decide
  omega

/-- **The input of a step.** Take a step with an input, any prompt and any context. The prompt that
is sent carries the input once just if the body of the prompt shows the input exactly when it asks
for it. A body that shows it is sent alone, and after any other body the input is added. What is
rendered for a body that does not ask for the input does not depend on it, so if such a body shows
the input, it is lost; and if a body asks for all of the input without showing it, that is sent
twice. -/
theorem carriesOnce_compose_iff {step : AgentStep} {input : AgentInput}
    (h : step.input = some input) (agent : Agent) (p : PromptText) (defaults : Defaults)
    (run : RunFacts) (c : Context) :
    let scope := Scope.of run c
    let value := renderInput scope input
    let rendered := (scope.withInput value).render p.body
    let sent := (compose step agent (some p) defaults run c).prompt
    (CarriesOnce p.body rendered (inputText value) sent ↔
      (ShowsInput p.body ↔ AsksForInput p.body)) ∧
    (ShowsInput p.body → sent = rendered) ∧
    (¬ShowsInput p.body → sent = rendered ++ "\n\n" ++ inputText value) ∧
    (¬AsksForInput p.body → rendered = scope.render p.body) ∧
    (Template.Asks p.body "input" → value.plainText.toList <:+: rendered.toList) := by
  intro scope value rendered sent
  have hsent : sent = if mentionsInput p.body then rendered
      else rendered ++ "\n\n" ++ inputText value := by
    show userPrompt _ _ (step.input.map (renderInput scope)) = _
    rw [h]
    rfl
  have hshown : ShowsInput p.body → sent = rendered := by
    intro hshows
    rw [hsent, if_pos (mentionsInput_iff.2 hshows)]
  have hunshown : ¬ShowsInput p.body → sent = rendered ++ "\n\n" ++ inputText value := by
    intro hshows
    rw [hsent, if_neg fun hmentions ↦ hshows (mentionsInput_iff.1 hmentions)]
  have hne := append_ne_self rendered (inputText value)
  refine ⟨⟨fun honce ↦ ⟨fun hshows ↦ ?_, fun hasks ↦ ?_⟩, fun hiff ↦ ⟨?_, ?_⟩⟩, hshown, hunshown,
    fun hasks ↦ render_withInput_of_not_asks hasks value,
    fun hasks ↦ isInfix_render_withInput hasks value⟩
  · by_contra hasks
    exact hne ((honce.afterBody hasks).symm.trans (hshown hshows))
  · by_contra hshows
    exact hne ((hunshown hshows).symm.trans (honce.inBody hasks))
  · exact fun hasks ↦ hshown (hiff.2 hasks)
  · exact fun hasks ↦ hunshown fun hshows ↦ hasks (hiff.1 hshows)

/-! ## Bodies that ask, and bodies that only seem to -/

def critic : Agent := { name := "critic", systemPrompt := "You rate drafts." }

def ratingInput : AgentInput := .structured [("title", .string "June"), ("words", .ofNat 90)]

def rating : AgentStep := { name := "rate", input := some ratingInput }

/-- The body asks for both parts, and it has a key in it that only looks like that of the input. -/
def ratingPrompt : PromptText where
  name := "rate"
  body := "Rate \x7b\x7b\tinput.title\x7d\x7d (\x7b\x7b my_input \x7d\x7d), " ++
    "\x7b\x7b input.words \x7d\x7d words."

def ratingScope : Scope := Scope.of {} .empty

theorem carriesOnce_rating :
    rating.input = some ratingInput ∧
    CarriesOnce ratingPrompt.body
      ((ratingScope.withInput (renderInput ratingScope ratingInput)).render ratingPrompt.body)
      (inputText (renderInput ratingScope ratingInput))
      (compose rating critic (some ratingPrompt) {} {} .empty).prompt ∧
    (compose rating critic (some ratingPrompt) {} {} .empty).prompt =
      "Rate June (\x7b\x7b my_input \x7d\x7d), 90 words." := by
  have hinput : rating.input = some ratingInput := rfl
  obtain ⟨honce, hshown, -⟩ := carriesOnce_compose_iff hinput critic ratingPrompt {} {} .empty
  have hshows : ShowsInput ratingPrompt.body := by decide +kernel
  have hasks : AsksForInput ratingPrompt.body := by decide +kernel
  refine ⟨hinput, honce.2 (iff_of_true hshows hasks), (hshown hshows).trans ?_⟩
  decide +kernel

/-- A step with a text as input. -/
def judging : AgentStep := { name := "judge", input := some (.text "the draft") }

def judgingPrompt (body : String) : String :=
  (compose judging critic (some ⟨"judge", "", body⟩) {} {} .empty).prompt

def judgingBody (body : String) : String :=
  ((Scope.of {} .empty).withInput (.string "the draft")).render body

/-- A key that only begins like that of the input swallows the input, and a second space before the
key of the input doubles it. -/
theorem input_swallowed_and_doubled :
    (∃ body, body = "Rate \x7b\x7b inputs \x7d\x7d." ∧ ¬AsksForInput body ∧
      judgingPrompt body = body ∧
      ¬CarriesOnce body (judgingBody body) "the draft" (judgingPrompt body)) ∧
    ∃ body, body = "Rate \x7b\x7b  input \x7d\x7d." ∧ AsksForInput body ∧
      judgingPrompt body = "Rate the draft.\n\nthe draft" ∧
      ¬CarriesOnce body (judgingBody body) "the draft" (judgingPrompt body) := by
  refine ⟨⟨_, rfl, ?_, ?_, fun honce ↦ ?_⟩, ⟨_, rfl, ?_, ?_, fun honce ↦ ?_⟩⟩
  · decide +kernel
  · decide +kernel
  · exact absurd (honce.afterBody (by decide +kernel)) (by decide +kernel)
  · decide +kernel
  · decide +kernel
  · exact absurd (honce.inBody (by decide +kernel)) (by decide +kernel)

end Prompt

end Workflow
