import GraphApi.Main
import GraphApi.Proofs.Nested.DeepUnion
import GraphApi.Request.Answer
import GraphApi.Proofs.Api.Conformance
import GraphApi.Proofs.Api.Authorization
import GraphApi.Proofs.Api.Literals
import GraphApi.Proofs.Api.Resolvers
import GraphApi.Proofs.Nested.NullItems
import GraphApi.Proofs.Cypher.Survival
import GraphApi.Proofs.Cypher.Enclosed
import GraphApi.Proofs.Nested.RootVariable
import GraphApi.Proofs.Nested.Insertion
import GraphApi.Proofs.Api.Crossing
import GraphApi.Proofs.Api.Redistribution
import GraphApi.Proofs.Api.Consistency
import GraphApi.Proofs.Api.PropertyTypes
import GraphApi.Proofs.Api.MutationModes
import GraphApi.Proofs.Api.FilterNames
