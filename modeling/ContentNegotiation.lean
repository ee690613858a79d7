import ContentNegotiation.Client
import ContentNegotiation.Config.Settings
import ContentNegotiation.Preference.Header
import ContentNegotiation.Proofs.Agent.Lead
import ContentNegotiation.Proofs.Agent.Loading
import ContentNegotiation.Proofs.Agent.Resolution
import ContentNegotiation.Proofs.Agent.RoundTrip
import ContentNegotiation.Proofs.Negotiation.Overflow
import ContentNegotiation.Proofs.Negotiation.Pass
import ContentNegotiation.Proofs.Negotiation.Restated
import ContentNegotiation.Proofs.Axis.LanguageCase
import ContentNegotiation.Proofs.Negotiation.OwnValue
import ContentNegotiation.Proofs.Negotiation.Selection
import ContentNegotiation.Proofs.Negotiation.Total
import ContentNegotiation.Proofs.Negotiation.Unconstrained
import ContentNegotiation.Proofs.Negotiation.Variant
import ContentNegotiation.Proofs.Template.Backtrack
import ContentNegotiation.Proofs.Template.Extent
import ContentNegotiation.Proofs.Template.Insertion
import ContentNegotiation.Proofs.Template.RoundTrip
import ContentNegotiation.Proofs.Client
import ContentNegotiation.Proofs.Preference.Joined
import ContentNegotiation.Proofs.Negotiation.Monotone
import ContentNegotiation.Proofs.Negotiation.Ranking
import ContentNegotiation.Proofs.Negotiation.MinusZero
import ContentNegotiation.Proofs.Agent.Browser
import ContentNegotiation.Proofs.Agent.Opening
import ContentNegotiation.Proofs.Template.Expansion
import ContentNegotiation.Proofs.Agent.Scanning
import ContentNegotiation.Proofs.Template.Custom
import ContentNegotiation.Proofs.Axis.LanguageRange
import ContentNegotiation.Proofs.Preference.Spelling
import ContentNegotiation.Proofs.Template.SpanEnds
