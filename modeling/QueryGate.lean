import QueryGate.CommandLine
import QueryGate.Proofs.Jql.Nesting
import QueryGate.Proofs.Graphql.Nesting
import QueryGate.Proofs.Jql.Whitelist
import QueryGate.Proofs.Margins
import QueryGate.Proofs.Pattern.Margins
import QueryGate.Proofs.Nesting.Pieces
import QueryGate.Proofs.Jql.Joining
import QueryGate.Proofs.Jql.Outline
import QueryGate.Proofs.Jql.Margins
import QueryGate.Proofs.Jql.Escape
import QueryGate.Proofs.Graphql.Joining
import QueryGate.Proofs.Graphql.Margins
import QueryGate.Proofs.Graphql.Escape
import QueryGate.Proofs.Graphql.Invocation
import QueryGate.Proofs.Graphql.Lines
import QueryGate.Proofs.Jql.Words
import QueryGate.Proofs.Jql.Appending
import QueryGate.Proofs.Jql.Relaxing
import QueryGate.Proofs.Policy.Soundness
import QueryGate.Proofs.Policy.Meaning
import QueryGate.Proofs.Policy.LoadedFields
import QueryGate.Proofs.Graphql.Relaxing
import QueryGate.Proofs.Graphql.Appending
import QueryGate.Proofs.Graphql.Introspection
import QueryGate.Proofs.Graphql.Faults
import QueryGate.Proofs.Pattern.Needs
import QueryGate.Proofs.Pattern.WholeWords
import QueryGate.Proofs.Jql.Comparing
import QueryGate.Proofs.Audit.Lines
import QueryGate.Proofs.CommandLine
import QueryGate.Proofs.Graphql.Handover
import QueryGate.Proofs.Agreement
import QueryGate.Proofs.Jql.Spacing
import QueryGate.Proofs.Graphql.Spacing
import QueryGate.Proofs.FailClosed
import QueryGate.Proofs.Graphql.FromDocument
import QueryGate.Proofs.Jql.CustomFields
import QueryGate.Proofs.Nesting.Counters
import QueryGate.Proofs.Audit.Preview
import QueryGate.Proofs.Audit.Timestamps
