import Rulebook.Store.Basic

/-!
# Writing rules

What users may do to the rules of a store: create one, revise one, and combine
some that are there into a new one. All is checked before the store is written,
and what is stored is always the canonical text.

The id of a new rule and the time are given from outside.
-/

namespace Rulebook

/-- A rule's name without blanks around it; it may not be blank. -/
def trimmedName (name : String) : Except RuleError String :=
  if Text.trim name = "" then .error (.invalid .blankName)
  else .ok (Text.trim name)

/-- The canonical text of what a text spells. -/
def canonicalText (text : String) : Except RuleError String :=
  ((Expression.ofText text).mapError .unreadable).map Expression.canonical

namespace Store

/-- Creates a rule. -/
def create (s : Store) (id : String) (now : Instant) (draft : RuleDraft) :
    Except RuleError (CompiledRule × Store) := do
  let name ← trimmedName draft.name
  let text ← canonicalText draft.text
  s.load {
    id := id
    name := name
    description := draft.description
    text := text
    createdAt := now
    updatedAt := now
    parents := [] }

/-- Replaces what is written in a rule. Its id, the time of its creation and its
parents stay. -/
def revise (s : Store) (id : String) (now : Instant) (draft : RuleDraft) :
    Except RuleError (CompiledRule × Store) := do
  let old ← s.find id
  let name ← trimmedName draft.name
  let text ← canonicalText draft.text
  s.replace { old.rule with
    name := name
    description := draft.description
    text := text
    updatedAt := now }

/-- Creates a rule that is the combination of stored rules as they are now. -/
def combine (s : Store) (id : String) (now : Instant)
    (request : CombinationRequest) :
    Except RuleError (CompiledRule × Store) := do
  if request.sources.length < 2 then
    throw (.combination (.tooFew request.sources.length))
  let name ← trimmedName request.name
  let sources ← s.findAll request.sources
  let combined ←
    (Expression.combineTexts request.connector
      (sources.map fun c => (c.rule.id, c.rule.text))).mapError .combination
  s.load {
    id := id
    name := name
    description := request.description
    text := combined.canonical
    createdAt := now
    updatedAt := now
    parents := request.sources }

end Store

end Rulebook
