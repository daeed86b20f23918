import FilterQuery.Json.Reader
import FilterQuery.Main
import FilterQuery.Proofs.Cli.PageSize
import FilterQuery.Proofs.Criteria.SortList
import FilterQuery.Proofs.Expression.EndOfInput
import FilterQuery.Proofs.Expression.Layout
import FilterQuery.Proofs.Expression.Paths
import FilterQuery.Proofs.Expression.RoundTrip
import FilterQuery.Proofs.Page.Coding
import FilterQuery.Proofs.Page.Walk
import FilterQuery.Proofs.Query.Assembly
import FilterQuery.Proofs.Query.Denial
import FilterQuery.Proofs.Query.Distinction
import FilterQuery.Proofs.Query.FirstDefect
import FilterQuery.Proofs.Query.Lists
import FilterQuery.Proofs.Query.Numbers
import FilterQuery.Proofs.Query.Recursion
import FilterQuery.Proofs.Query.Transparency
import FilterQuery.Proofs.Search.Confinement
import FilterQuery.Proofs.Search.Decoding
import FilterQuery.Proofs.Search.Discipline
import FilterQuery.Proofs.Search.DryRun
import FilterQuery.Proofs.Search.EffectiveFilter
import FilterQuery.Proofs.Search.Facets
import FilterQuery.Proofs.Search.RawFilter
import FilterQuery.Search.Session
