import SqlAlgebra.Report
import SqlAlgebra.Build.Anonymous
import SqlAlgebra.Build.Modification
import SqlAlgebra.Build.Query
import SqlAlgebra.Dialect.Database
import SqlAlgebra.Json.Reader
import SqlAlgebra.Outline.Tree
import SqlAlgebra.Value.Wire
import SqlAlgebra.Proofs.Cache.Transparency
import SqlAlgebra.Proofs.Deferred.Substitution
import SqlAlgebra.Proofs.Layout.Correlation
import SqlAlgebra.Proofs.Cache.Lifetime
import SqlAlgebra.Proofs.Cache.Recency
import SqlAlgebra.Proofs.Cache.ParameterNames
import SqlAlgebra.Proofs.Build.Diagnostics
import SqlAlgebra.Proofs.Cache.Consistency
import SqlAlgebra.Proofs.Cache.SyntheticNames
import SqlAlgebra.Proofs.Reading.Parenthesization
import SqlAlgebra.Proofs.Layout.InsertedValues
import SqlAlgebra.Proofs.Coercion.Anonymization
import SqlAlgebra.Proofs.Coercion.Policy
import SqlAlgebra.Proofs.Template.Annotation
import SqlAlgebra.Proofs.Cache.Literals
import SqlAlgebra.Proofs.Reading.Quotation
import SqlAlgebra.Proofs.Cache.Restyling
import SqlAlgebra.Proofs.Cache.Comments
import SqlAlgebra.Proofs.Value.Inputs
import SqlAlgebra.Proofs.Deferred.BoundValues
import SqlAlgebra.Proofs.Coercion.Membership
import SqlAlgebra.Proofs.Layout.Labels
import SqlAlgebra.Proofs.Layout.Outputs
import SqlAlgebra.Proofs.Reading.ListItems
import SqlAlgebra.Proofs.Template.Lists
import SqlAlgebra.Proofs.Cache.Failures
import SqlAlgebra.Proofs.Cache.Configurations
import SqlAlgebra.Proofs.Value.Encoding
import SqlAlgebra.Proofs.Cache.Dialects
import SqlAlgebra.Proofs.Template.Freshness
import SqlAlgebra.Proofs.Survey.NameConflicts
import SqlAlgebra.Proofs.Deferred.Depth
import SqlAlgebra.Proofs.Survey.Order
