import Rag.Cache.Keys
import Rag.Cache.Configuration
import Rag.IndexRegistry
import Rag.Pipelines.Online
import Rag.Retrieval.Visibility
import Rag.Retrieval.Pushdown
import Rag.Retrieval.Contract
import Rag.VectorDb.Published
import Rag.Agent.Caps
import Rag.Agent.Spend
import Rag.Agent.Faults
import Rag.Agent.Veil
import Rag.Agent.Provenance
import Rag.Agent.Agreement
import Rag.Agent.Transcript
import Rag.Agent.Admission
import Rag.Agent.Rendering
import Rag.Cache.Lifetime
import Rag.Cache.RealAnswers
import Rag.Cache.Coherence
import Rag.Pipelines.Cutover
import Rag.Pipelines.Snapshot
import Rag.Pipelines.Redaction
import Rag.Pipelines.Drift
import Rag.Retrieval.Formula
import Rag.Generation.Ambiguity
import Rag.Pipelines.Confidence
import Rag.Pipelines.Isolation
import Rag.Agent.Verdicts
import Rag.Api.Traces
import Rag.Chunking.Pieces
import Rag.Chunking.Windows
import Rag.Eval.Independence
import Rag.Eval.Rates
import Rag.Retrieval.Consensus
import Rag.Retrieval.Payloads
import Rag.Lexical.History
import Rag.Cache.Eviction
import Rag.Agent.Ledger
import Rag.Agent.Excerpts
import Rag.Agent.Reconciliation
import Rag.Agent.Passages
import Rag.Llm.Retries
import Rag.Ingestion.Listing
import Rag.Security.Auth
import Rag.Settings
import Rag.Utils.Hashing
import Rag.Api.Concurrency
import Rag.Agent.ToolCache
import Rag.Prompts.Shipped
import Rag.VectorDb.Cluster
import Rag.Security.Deployment
import Rag.Agent.Reach
import Rag.Api.Tenants
import Rag.Api.Endpoint
